import ServerPages.Compilation.Options
import ServerPages.Settings.Address
import ServerPages.Settings.Duration
import ServerPages.Settings.EnvFile

/-!
# Settings

The settings of the program come from variables: of the environment, of a file beside it, or else
they have defaults. A variable of the environment that is empty does not count.

Main definition: `Settings.load?`.
-/

namespace ServerPages

/-- The settings of the program. -/
structure Settings where
  /-- Where the program runs. -/
  environment : Bytes := []
  /-- The address of the server. -/
  serverAddress : Bytes := []
  /-- The address of the store of artifacts. -/
  storeAddress : Bytes := []
  /-- How long artifacts are kept. -/
  artifactTtl : Duration := 0
  /-- The directory of the pages. -/
  pageRoot : Bytes := []
  /-- The directory that code is written to. -/
  outputDirectory : Bytes := []
  /-- The directory of tag libraries, below that of the pages. -/
  libraryDirectory : Bytes := []
  /-- The path of the runtime package. -/
  runtimeImport : Bytes := []
  /-- The package of the generated code. -/
  outputPackage : Bytes := []
  /-- Whether handlers are pooled. -/
  poolTagHandlers : Bool := false
  /-- The size of the chunks of literal text. -/
  textChunkSize : Int := 0
  /-- Whether literal text is put into constants. -/
  poolLiteralText : Bool := false
  /-- The encoding of sources that name none. -/
  defaultEncoding : Bytes := []
  /-- How many problems of a unit are collected. -/
  maxErrors : Int := 0
  deriving DecidableEq, Repr

namespace Settings

/-- The settings if no variable is set. -/
def defaults : Settings where
  environment := "production"
  serverAddress := "http://0.0.0.0:8080"
  storeAddress := "localhost:6379"
  artifactTtl := 24 * 3600 * Duration.second
  pageRoot := "."
  outputDirectory := "generated"
  libraryDirectory := "WEB-INF"
  outputPackage := "pages"
  defaultEncoding := CompilerOptions.usualEncoding
  maxErrors := 100

/-- The value of a variable: that of the environment if it is not empty, else that of the file, in
which the case of names does not matter. -/
def settingOf? (environment file : EnvFile.Variables) (name : Bytes) : Option Bytes :=
  match environment.lookup name with
  | some (b :: s) => some (b :: s)
  | _ => (file.find? fun v => v.1.map Bytes.lowerByte == name.map Bytes.lowerByte).map (·.2)

/-- A number, for which an empty text stands for zero. -/
def number? (s : Bytes) : Option Int := if s == [] then some 0 else Numeral.prefixed? s

/-- A truth value, for which an empty text stands for false. -/
def truth? (s : Bytes) : Option Bool :=
  if s == [] then some false else (Numeral.truth s).toOption

/-- The settings that variables give. -/
def ofVariables? (value : Bytes → Option Bytes) : Option Settings := do
  let text (name default : Bytes) : Bytes := (value name).getD default
  let converted {α : Type} (convert : Bytes → Option α) (name : Bytes) (default : α) : Option α :=
    match value name with
    | some s => convert s
    | none => some default
  return {
    environment := text "ENVIRONMENT" defaults.environment
    serverAddress := text "HTTP_SERVER_ADDRESS" defaults.serverAddress
    storeAddress := text "REDIS_ADDRESS" defaults.storeAddress
    artifactTtl := ← converted Duration.ofText? "ARTIFACT_TTL" defaults.artifactTtl
    pageRoot := text "PAGE_ROOT" defaults.pageRoot
    outputDirectory := text "OUTPUT_DIR" defaults.outputDirectory
    libraryDirectory := text "TAGLIB_DIR" defaults.libraryDirectory
    runtimeImport := text "RUNTIME_IMPORT" defaults.runtimeImport
    outputPackage := text "OUTPUT_PACKAGE" defaults.outputPackage
    poolTagHandlers := ← converted truth? "POOL_TAG_HANDLERS" defaults.poolTagHandlers
    textChunkSize := ← converted number? "TEXT_CHUNK_SIZE" defaults.textChunkSize
    poolLiteralText := ← converted truth? "POOL_LITERAL_TEXT" defaults.poolLiteralText
    defaultEncoding := text "DEFAULT_ENCODING" defaults.defaultEncoding
    maxErrors := ← converted number? "MAX_ERRORS" defaults.maxErrors }

/-- The settings of an environment and a file of variables, which may be missing; `none` if the file
or a value is malformed. -/
def load? (environment : EnvFile.Variables) (file : Option Bytes) : Option Settings := do
  let vars ← match file with
    | some raw => EnvFile.read? environment raw
    | none => some []
  ofVariables? (settingOf? environment vars)

/-- The options of a compiler. The problems of a unit are cut off at their number if there is
one. -/
def compilerOptions (s : Settings) : CompilerOptions where
  package := s.outputPackage
  runtimeImport := s.runtimeImport
  poolTagHandlers := s.poolTagHandlers
  textChunkSize := s.textChunkSize
  poolLiteralText := s.poolLiteralText
  defaultEncoding := s.defaultEncoding
  maxErrors := s.maxErrors
  overflow := if 0 < s.maxErrors then .truncate else .noCap

end Settings

end ServerPages
