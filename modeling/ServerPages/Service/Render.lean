import ServerPages.Artifact.Store
import ServerPages.Json.Value
import ServerPages.Service.Params

/-!
# Values of responses

How results, artifacts and errors are shown to clients. Fields that are empty are left out.
-/

namespace ServerPages.Service

open JsonValue (member? record)

/-- A compiled unit as a value. -/
def unitJson (u : CompiledUnit) : JsonValue :=
  record [
    some ("path", .string u.path), some ("type_name", .string u.typeName),
    some ("file_name", .string u.fileName), some ("encoding", .string u.encoding),
    member? u.isTagFile "tag_file" (.bool true), some ("source", .string u.source),
    some ("smap", .string u.lineMap)]

/-- A compilation as a value. -/
def resultJson (r : Compilation) : JsonValue :=
  record [
    some ("unit", unitJson r.unit),
    member? (!r.auxiliary.isEmpty) "aux" (.array (r.auxiliary.map unitJson))]

/-- The response to a request to compile, as a value. -/
def compiledJson (key : Bytes) (cached : Bool) (r : Compilation) : JsonValue :=
  .object [("key", .string key), ("cached", .bool cached), ("result", resultJson r)]

/-- An artifact as a value. -/
def artifactJson (a : Artifact) : JsonValue :=
  .object [("key", .string a.key), ("result", resultJson a.result)]

/-- A diagnostic as a value. -/
def diagnosticJson (d : Diagnostic) : JsonValue :=
  let p := d.position
  record [
    member? (p.file != []) "file" (.string p.file), member? (p.line != 0) "line" (.ofInt p.line),
    member? (p.col != 0) "column" (.ofInt p.col), some ("key", .string d.issue.key),
    some ("issue", .string d.issue.title), some ("message", .string d.message),
    member? (!p.includedFrom.isEmpty) "included_from" (.array (p.includedFrom.map .string))]

/-- An error as a value. -/
def errorJson (message : Bytes) : JsonValue := .object [("error", .string message)]

/-- A field that breaks a rule as a value. -/
def fieldJson (f : Bytes × Rule) : JsonValue :=
  .object [("field_name", .string f.1), ("error_message", .string f.2.message)]

/-- Refused parameters as a value. -/
def paramsJson : ParamsError → JsonValue
  | .unreadable => errorJson "invalid params"
  | .invalid fields =>
    .object [("error", .string "invalid params"), ("fields", .array (fields.map fieldJson))]

/-- The problems of a page as a value. -/
def problemsJson (ds : List Diagnostic) : JsonValue :=
  .object [("error", .string "page failed to compile"), ("errors", .array (ds.map diagnosticJson))]

end ServerPages.Service
