import ServerPages.Text.Bytes

/-!
# Kinds of problems

Every problem found in a page, a tag library descriptor or an option is of one kind. A kind has a
stable key, which clients look messages up by, and a title for people.
-/

namespace ServerPages

/-- The kind of a problem. -/
inductive Issue where
  /-- A comment, scriptlet, directive or expression is not closed in its source. -/
  | unterminated
  /-- The end tag of an element is missing in its source. -/
  | unterminatedTag
  /-- An end tag has no open element of its name. -/
  | unbalancedEndTag
  /-- An attribute has no name, no value or an unquoted value. -/
  | badAttribute
  /-- An attribute is given twice on one element. -/
  | duplicateAttribute
  /-- There is no directive of that name. -/
  | unknownDirective
  /-- There is no standard action of that name. -/
  | unknownAction
  /-- An element that must be empty has content. -/
  | bodyNotEmpty
  /-- A file includes itself. -/
  | circularInclude
  /-- An included file cannot be loaded. -/
  | includeFailed
  /-- A document in XML syntax is not well formed. -/
  | xmlSyntax
  /-- A mandatory attribute is absent. -/
  | missingAttribute
  /-- An attribute is not declared. -/
  | unknownAttribute
  /-- A named attribute repeats an attribute. -/
  | duplicateNamedAttribute
  /-- A runtime value is given where only a literal is allowed. -/
  | runtimeValueNotAllowed
  /-- A directive attribute is set twice with different values. -/
  | directiveConflict
  /-- A directive has an attribute it does not define. -/
  | invalidDirectiveAttribute
  /-- A directive attribute has a value outside its domain. -/
  | invalidDirectiveValue
  /-- A directive stands in the wrong kind of unit. -/
  | misplacedDirective
  /-- A scripting element stands where scripting is disabled. -/
  | scriptingNotAllowed
  /-- A tag both declares and computes its scripting variables. -/
  | variableConflict
  /-- A literal attribute value cannot be converted to its type. -/
  | invalidLiteral
  /-- A standard action stands outside the element it belongs to. -/
  | misplacedAction
  /-- An expression does not follow the grammar. -/
  | invalidExpression
  /-- A tag's own check refuses its attributes. -/
  | tagValidation
  /-- A tag library cannot be resolved. -/
  | unknownTaglib
  /-- A tag library does not define the tag. -/
  | unknownTag
  /-- A tag library does not define the function. -/
  | unknownFunction
  /-- No tag library is bound to the prefix. -/
  | unknownPrefix
  /-- A tag file the unit depends on failed to compile. -/
  | dependencyFailed
  /-- The character encoding of a source is not known. -/
  | unsupportedEncoding
  /-- An invariant of the compiler is broken. -/
  | internal
  /-- Further problems are suppressed. -/
  | errorsTruncated
  /-- The number of problems to collect is negative. -/
  | negativeErrorsCap
  /-- A tag library descriptor is malformed or inconsistent. -/
  | badDescriptor
  /-- A tag library of the same uri is already registered. -/
  | duplicateTaglib
  /-- A compiler option has an invalid value. -/
  | badOption
  /-- A number that names no kind. -/
  | unrecognized (code : Int)
  deriving DecidableEq, Repr

namespace Issue

/-- The kinds in the order of their numbers. -/
def all : List Issue :=
  [.unterminated, .unterminatedTag, .unbalancedEndTag, .badAttribute, .duplicateAttribute,
    .unknownDirective, .unknownAction, .bodyNotEmpty, .circularInclude, .includeFailed,
    .xmlSyntax, .missingAttribute, .unknownAttribute, .duplicateNamedAttribute,
    .runtimeValueNotAllowed, .directiveConflict, .invalidDirectiveAttribute,
    .invalidDirectiveValue, .misplacedDirective, .scriptingNotAllowed, .variableConflict,
    .invalidLiteral, .misplacedAction, .invalidExpression, .tagValidation, .unknownTaglib,
    .unknownTag, .unknownFunction, .unknownPrefix, .dependencyFailed, .unsupportedEncoding,
    .internal, .errorsTruncated, .negativeErrorsCap, .badDescriptor, .duplicateTaglib,
    .badOption]

/-- The kind with a number. -/
def ofCode (code : Int) : Issue :=
  if code < 0 then .unrecognized code else all.getD code.toNat (.unrecognized code)

/-- The key that messages are looked up by. -/
def key : Issue → Bytes
  | .unterminated => "pagec.error.unterminated"
  | .unterminatedTag => "pagec.error.unterminated.tag"
  | .unbalancedEndTag => "pagec.error.unbalanced.endtag"
  | .badAttribute => "pagec.error.attribute.malformed"
  | .duplicateAttribute => "pagec.error.attribute.duplicate"
  | .unknownDirective => "pagec.error.directive.unknown"
  | .unknownAction => "pagec.error.action.unknown"
  | .bodyNotEmpty => "pagec.error.body.notempty"
  | .circularInclude => "pagec.error.include.circular"
  | .includeFailed => "pagec.error.include.failed"
  | .xmlSyntax => "pagec.error.xml.syntax"
  | .missingAttribute => "pagec.error.attribute.missing"
  | .unknownAttribute => "pagec.error.attribute.unknown"
  | .duplicateNamedAttribute => "pagec.error.attribute.named.duplicate"
  | .runtimeValueNotAllowed => "pagec.error.attribute.runtime"
  | .directiveConflict => "pagec.error.directive.conflict"
  | .invalidDirectiveAttribute => "pagec.error.directive.attribute"
  | .invalidDirectiveValue => "pagec.error.directive.value"
  | .misplacedDirective => "pagec.error.directive.misplaced"
  | .scriptingNotAllowed => "pagec.error.scripting.disabled"
  | .variableConflict => "pagec.error.variable.conflict"
  | .invalidLiteral => "pagec.error.attribute.literal"
  | .misplacedAction => "pagec.error.action.misplaced"
  | .invalidExpression => "pagec.error.el.syntax"
  | .tagValidation => "pagec.error.tag.validation"
  | .unknownTaglib => "pagec.error.taglib.unknown"
  | .unknownTag => "pagec.error.tag.unknown"
  | .unknownFunction => "pagec.error.function.unknown"
  | .unknownPrefix => "pagec.error.prefix.unknown"
  | .dependencyFailed => "pagec.error.dependency"
  | .unsupportedEncoding => "pagec.error.encoding"
  | .internal => "pagec.error.internal"
  | .errorsTruncated => "pagec.error.truncated"
  | .negativeErrorsCap => "pagec.config.errors.cap"
  | .badDescriptor => "pagec.config.descriptor"
  | .duplicateTaglib => "pagec.config.taglib.duplicate"
  | .badOption => "pagec.config.option"
  | .unrecognized _ => "pagec.error.unknown"

/-- The title for people. -/
def title : Issue → Bytes
  | .unterminated => "Unterminated Construct"
  | .unterminatedTag => "Unterminated Tag"
  | .unbalancedEndTag => "Unbalanced End Tag"
  | .badAttribute => "Malformed Attribute"
  | .duplicateAttribute => "Duplicate Attribute"
  | .unknownDirective => "Unknown Directive"
  | .unknownAction => "Unknown Standard Action"
  | .bodyNotEmpty => "Body Not Empty"
  | .circularInclude => "Circular Include"
  | .includeFailed => "Include Failed"
  | .xmlSyntax => "XML Syntax"
  | .missingAttribute => "Missing Attribute"
  | .unknownAttribute => "Unknown Attribute"
  | .duplicateNamedAttribute => "Duplicate Named Attribute"
  | .runtimeValueNotAllowed => "Runtime Value Not Allowed"
  | .directiveConflict => "Directive Conflict"
  | .invalidDirectiveAttribute => "Invalid Directive Attribute"
  | .invalidDirectiveValue => "Invalid Directive Value"
  | .misplacedDirective => "Misplaced Directive"
  | .scriptingNotAllowed => "Scripting Not Allowed"
  | .variableConflict => "Variable Conflict"
  | .invalidLiteral => "Invalid Literal"
  | .misplacedAction => "Misplaced Action"
  | .invalidExpression => "Invalid Expression"
  | .tagValidation => "Tag Validation"
  | .unknownTaglib => "Unknown Tag Library"
  | .unknownTag => "Unknown Tag"
  | .unknownFunction => "Unknown Function"
  | .unknownPrefix => "Unknown Prefix"
  | .dependencyFailed => "Dependency Failed"
  | .unsupportedEncoding => "Unsupported Encoding"
  | .internal => "Internal Error"
  | .errorsTruncated => "Errors Truncated"
  | .negativeErrorsCap => "Negative Errors Cap"
  | .badDescriptor => "Bad Descriptor"
  | .duplicateTaglib => "Duplicate Tag Library"
  | .badOption => "Bad Option"
  | .unrecognized _ => "Unknown Issue"

end Issue

end ServerPages
