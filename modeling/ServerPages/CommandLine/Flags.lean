import ServerPages.Text.Bytes

/-!
# Arguments of the compile command

The command takes flags and then the paths of pages. A flag starts with one or two dashes; its value
follows an equals sign or is the next argument. Flags end at the first argument that is none, or
after two dashes alone.

Main definition: `CompileCommand.read`.
-/

namespace ServerPages

/-- What the compile command is asked to do. -/
structure CompileCommand where
  /-- The directory of the pages. -/
  root : Bytes
  /-- The directory that code is written to. -/
  output : Bytes
  /-- The pages; all pages of the directory if there are none. -/
  pages : List Bytes := []
  deriving DecidableEq, Repr

/-- Why arguments are refused. -/
inductive FlagError where
  /-- An argument is no flag though it starts like one. -/
  | malformed (argument : Bytes)
  /-- There is no such flag. -/
  | unknown (name : Bytes)
  /-- A flag has no value. -/
  | missingValue (name : Bytes)
  /-- Help was asked for. -/
  | help
  deriving DecidableEq, Repr

/-- The message of an error. -/
def FlagError.text : FlagError → Bytes
  | .malformed argument => "bad flag syntax: " ++ argument
  | .unknown name => "flag provided but not defined: -" ++ name
  | .missingValue name => "flag needs an argument: -" ++ name
  | .help => "flag: help requested"

namespace CompileCommand

/-- Whether an argument starts like a flag. -/
def isFlag (argument : Bytes) : Bool := 2 ≤ argument.length && argument.head? == some 45

/-- The name of a flag and the value written with it. -/
def splitFlag (flag : Bytes) : Bytes × Option Bytes :=
  match Bytes.indexOfByte? 61 flag with
  | some i => (flag.take i, some (flag.drop (i + 1)))
  | none => (flag, none)

/-- The command with the value of a flag, if there is such a flag. -/
def setFlag? (c : CompileCommand) (name : Bytes) : Option (Bytes → CompileCommand) :=
  if name == "root" then some fun v => { c with root := v }
  else if name == "out" then some fun v => { c with output := v }
  else none

/-- The command that arguments ask for, after the flags read so far. -/
def read (c : CompileCommand) : List Bytes → Except FlagError CompileCommand
  | [] => .ok { c with pages := [] }
  | argument :: rest =>
    if !isFlag argument then .ok { c with pages := argument :: rest }
    else if argument == "--" then .ok { c with pages := rest }
    else
      let flag := if argument.startsWith "--" then argument.drop 2 else argument.drop 1
      if flag.head?.all fun b => b == 45 || b == 61 then .error (.malformed argument)
      else
        let (name, value?) := splitFlag flag
        match c.setFlag? name, value?, rest with
        | none, _, _ => .error (if name == "help" || name == "h" then .help else .unknown name)
        | some set, some value, rest => read (set value) rest
        | some set, none, value :: rest => read (set value) rest
        | some _, none, [] => .error (.missingValue name)
termination_by arguments => arguments.length

end CompileCommand

end ServerPages
