import ServerPages.TagLibrary.Descriptor
import ServerPages.Unicode.Letter

/-!
# Setters of tag handlers

The generated code passes an attribute to the handler through a method. By default the method of a
declared attribute `fooBar` is `SetFooBar`, and undeclared attributes share one method.
-/

namespace ServerPages

/-- How an attribute is passed to a handler. -/
structure Setter where
  /-- The method that takes the value; empty if none was chosen. -/
  method : Bytes := []
  /-- The type of the value. -/
  valueType : Bytes := []
  /-- Whether the method takes attributes that are not declared. -/
  dynamic : Bool := false
  deriving DecidableEq, Repr

/-- Chooses the setter of an attribute, if there is one. -/
abbrev Binder := TagDescriptor → Bytes → Option Setter

namespace Setter

/-- The method that takes attributes that are not declared. -/
def dynamicMethod : Bytes := "SetDynamicAttribute"

/-- The type of fragment attributes. -/
def fragmentType : Bytes := "rt.Fragment"

/-- The characters of a name with hyphens, underscores and dots dropped and the character after
each of them in upper case; `upper` tells whether the first one is. -/
def camelFrom : Bool → List Nat → List Nat
  | _, [] => []
  | upper, c :: cs =>
    if c == 45 || c == 95 || c == 46 then camelFrom true cs
    else (if upper then Unicode.toUpper c else c) :: camelFrom false cs

/-- A name in upper camel case. -/
def camel (name : Bytes) : Bytes := Utf8.encodeAll (camelFrom true (Utf8.chars name))

/-- A name as an exported identifier; one that does not start with a letter gets an `X`. -/
def exported (name : Bytes) : Bytes :=
  match Utf8.first? name with
  | none => []
  | some (c, _) => if Unicode.isLetter c then camel name else camel ("X" ++ name)

/-- The setter of an attribute by its name and declared type. -/
def byName : Binder := fun d name =>
  match d.attribute? name with
  | some sig =>
    some ⟨"Set" ++ camel name, if sig.fragment then fragmentType else sig.valueType, false⟩
  | none => if d.dynamicAttributes then some ⟨dynamicMethod, "any", true⟩ else none

end Setter

end ServerPages
