import ServerPages.Tree.Kind

/-!
# Attributes of directives and standard actions

Which attributes a directive or a standard action has, which of them it needs, and which values
they take.
-/

namespace ServerPages.Validation

/-- An attribute of a directive or a standard action. -/
structure Signature where
  /-- Its name. -/
  name : Bytes
  /-- Whether it must be given. -/
  required : Bool := false
  /-- Whether its value may be known only when the page runs. -/
  dynamic : Bool := false
  /-- The literal values it takes; none are listed if it takes any. -/
  values : List Bytes := []
  deriving DecidableEq, Repr

/-- An attribute that takes any literal. -/
def plain (name : Bytes) : Signature := { name := name }

/-- An attribute that must be given a literal. -/
def mandatory (name : Bytes) : Signature := { name := name, required := true }

/-- An attribute that takes any value. -/
def dynamic (name : Bytes) : Signature := { name := name, dynamic := true }

/-- An attribute that takes the literals listed. -/
def oneOf (name : Bytes) (values : List Bytes) : Signature := { name := name, values := values }

/-- An attribute that takes a truth value. -/
def flag (name : Bytes) : Signature := oneOf name ["true", "false"]

/-- The scopes of beans and results. -/
def scopes : List Bytes := ["page", "request", "session", "application"]

/-- The attributes of a directive or a standard action. -/
def signatures : Kind → List Signature
  | .pageDirective =>
    [oneOf "language" ["go"], plain "import", flag "session", plain "buffer", flag "autoFlush",
      flag "isThreadSafe", plain "info", plain "errorPage", flag "isErrorPage",
      plain "contentType", plain "pageEncoding", flag "isELIgnored",
      flag "trimDirectiveWhitespaces"]
  | .includeDirective => [mandatory "file"]
  | .taglibDirective => [mandatory "prefix", plain "uri", plain "tagdir"]
  | .tagDirective =>
    [plain "display-name", oneOf "body-content" ["empty", "scriptless", "tagdependent"],
      plain "dynamic-attributes", plain "small-icon", plain "large-icon", plain "description",
      plain "example", oneOf "language" ["go"], plain "import", plain "pageEncoding",
      flag "isELIgnored", flag "trimDirectiveWhitespaces"]
  | .attributeDirective =>
    [mandatory "name", flag "required", flag "fragment", flag "rtexprvalue", plain "type",
      plain "description"]
  | .variableDirective =>
    [plain "name-given", plain "name-from-attribute", plain "alias", plain "variable-class",
      flag "declare", oneOf "scope" ["AT_BEGIN", "NESTED", "AT_END"], plain "description"]
  | .includeAction => [{ dynamic "page" with required := true }, flag "flush"]
  | .forwardAction => [{ dynamic "page" with required := true }]
  | .getProperty => [mandatory "name", mandatory "property"]
  | .setProperty => [mandatory "name", mandatory "property", plain "param", dynamic "value"]
  | .useBean =>
    [mandatory "id", oneOf "scope" scopes, plain "class", plain "type", dynamic "beanName"]
  | .plugin =>
    [{ oneOf "type" ["bean", "applet"] with required := true }, mandatory "code",
      mandatory "codebase", plain "align", plain "archive", dynamic "height", plain "hspace",
      plain "jreversion", plain "name", plain "vspace", plain "title", dynamic "width",
      plain "nspluginurl", plain "iepluginurl", flag "mayscript"]
  | .param => [mandatory "name", { dynamic "value" with required := true }]
  | .namedAttribute => [mandatory "name", flag "trim", dynamic "omit"]
  | .invokeAction => [mandatory "fragment", plain "var", plain "varReader", oneOf "scope" scopes]
  | .doBodyAction => [plain "var", plain "varReader", oneOf "scope" scopes]
  | _ => []

end ServerPages.Validation
