import ServerPages.Charset.Declaration
import ServerPages.Charset.Name
import ServerPages.Diagnostics.Collector
import ServerPages.Generation.State
import ServerPages.TagLibrary.Setter
import ServerPages.Validation.Validate

/-!
# Options of a compiler

The options are checked once, before anything is compiled.
-/

namespace ServerPages

/-- How sources are compiled. -/
structure CompilerOptions where
  /-- The package of the generated files. -/
  package : Bytes := []
  /-- The path of the runtime package. -/
  runtimeImport : Bytes := []
  /-- Whether handlers are pooled. -/
  poolTagHandlers : Bool := false
  /-- The size of the chunks of literal text; zero asks for the usual size. -/
  textChunkSize : Int := 0
  /-- Whether literal text is put into constants. -/
  poolLiteralText : Bool := false
  /-- The encoding of sources that name none; empty asks for the usual one. -/
  defaultEncoding : Bytes := []
  /-- The encodings that are known. -/
  encodings : Encodings := Charset.registered
  /-- How many problems of a unit are collected. -/
  maxErrors : Int := 0
  /-- What happens when more problems are found. -/
  overflow : OverflowPolicy := .noCap
  /-- How setters of handlers are found. -/
  binder : Binder := Setter.byName

namespace CompilerOptions

/-- The encoding of sources that name none, if no other is asked for. -/
def usualEncoding : Bytes := "UTF-8"

/-- The encoding of sources that name none. -/
def fallbackEncoding (o : CompilerOptions) : Bytes :=
  if o.defaultEncoding == [] then usualEncoding else o.defaultEncoding

/-- What is wrong with the options, if anything is. -/
def fault? (o : CompilerOptions) : Option Fault :=
  if o.textChunkSize < 0 then
    some (.config .badOption
      ("text chunk size must be non-negative, got " ++ Bytes.ofInt o.textChunkSize))
  else if o.maxErrors < 0 then some (Collector.negativeCapacity o.maxErrors)
  else if (o.encodings o.fallbackEncoding).isNone then
    some (.config .badOption (Charset.unknownText o.fallbackEncoding))
  else none

/-- How a unit is validated. -/
def validation (o : CompilerOptions) : ValidationOptions where
  binder := o.binder
  overflow := o.overflow
  maxErrors := o.maxErrors

/-- How the code of a unit is generated. -/
def generation (o : CompilerOptions) (typeName : Bytes) : Generation.Options where
  package := o.package
  runtimeImport := o.runtimeImport
  typeName := typeName
  poolTagHandlers := o.poolTagHandlers
  textChunkSize := o.textChunkSize
  poolLiteralText := o.poolLiteralText

end CompilerOptions

end ServerPages
