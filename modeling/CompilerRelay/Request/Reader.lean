import CompilerRelay.Json.Reader
import CompilerRelay.Request
import CompilerRelay.Text.Quoted

/-!
# Reading requests

Requests from lines of text.

**Algorithm.**  The object is read member by member.  The number of the request is checked where it stands;
all other members are gathered, and the command and its fields are sought among them once the object has
ended.  Members that the command does not have are passed over.

**Faults.**  What is wrong with the text or with the number is told with its place, what is wrong with the
command or a field with the place of the end of the object.  Of several, the first one counts; that a field
is missing is told after all others.
-/

namespace CompilerRelay

/-- A value as it is named in a fault. -/
def Json.description : Json → String
  | .null => "null"
  | .bool value => s!"boolean `{value}`"
  | .number (.natural value) => s!"integer `{value}`"
  | .number (.negative magnitude) => s!"integer `-{magnitude}`"
  | .number (.decimal text) => s!"floating point `{text}`"
  | .string value => "string " ++ quoted value
  | .array _ => "sequence"
  | .object _ => "map"

/-- A fault of the values of a request. -/
inductive RequestFault where
  | missing (field : String)
  | duplicate (field : String)
  | wrongType (value : Json) (expected : String)
  | outOfRange (value : Json) (expected : String)
  | unknownCommand (name : String)

namespace RequestFault

/-- The names of all commands as they are listed in a fault. -/
def commandList : String :=
  ", ".intercalate (CommandName.all.map fun name => s!"`{name.text}`")

/-- What is told of a fault. -/
def message : RequestFault → String
  | .missing field => s!"missing field `{field}`"
  | .duplicate field => s!"duplicate field `{field}`"
  | .wrongType value expected => s!"invalid type: {value.description}, expected {expected}"
  | .outOfRange value expected => s!"invalid value: {value.description}, expected {expected}"
  | .unknownCommand name => s!"unknown variant `{name}`, expected one of {commandList}"

end RequestFault

/-- The values of the fields that were found. -/
structure Fields where
  file : Option Path := none
  directory : Option Path := none
  directories : Option (List Path) := none
  code : Option String := none
  success : Option String := none
  failure : Option (Option String) := none
  start : Option Bool := none
  keepOutput : Option Bool := none
  offset : Option Nat := none
  enabled : Option Bool := none
  deriving DecidableEq, Repr

namespace Fields

/-- A value that must be a string. -/
def textOf (expected : String) : Json → Except RequestFault String
  | .string text => .ok text
  | value => .error (.wrongType value expected)

/-- A value that must be a path. -/
def pathOf (value : Json) : Except RequestFault Path :=
  (textOf "path string" value).map Path.mk

/-- A value that must be a list of paths. -/
def pathsOf : Json → Except RequestFault (List Path)
  | .array items => items.mapM pathOf
  | value => .error (.wrongType value "a sequence")

/-- A value that may be a string. -/
def optionalTextOf : Json → Except RequestFault (Option String)
  | .null => .ok none
  | value => (textOf "a string" value).map some

/-- A value that must be a truth value. -/
def truthOf : Json → Except RequestFault Bool
  | .bool value => .ok value
  | value => .error (.wrongType value "a boolean")

/-- A value that must be a natural number. -/
def naturalOf (expected : String) : Json → Except RequestFault Nat
  | .number (.natural value) => .ok value
  | .number (.negative magnitude) => .error (.outOfRange (.number (.negative magnitude)) expected)
  | value => .error (.wrongType value expected)

/-- Whether a field was found. -/
def holds (fields : Fields) : FieldName → Bool
  | .file => fields.file.isSome
  | .directory => fields.directory.isSome
  | .directories => fields.directories.isSome
  | .code => fields.code.isSome
  | .success => fields.success.isSome
  | .failure => fields.failure.isSome
  | .start => fields.start.isSome
  | .keepOutput => fields.keepOutput.isSome
  | .offset => fields.offset.isSome
  | .enabled => fields.enabled.isSome

/-- The fields with the value of one of them. -/
def store (fields : Fields) (value : Json) : FieldName → Except RequestFault Fields
  | .file => (pathOf value).map fun file => { fields with file := some file }
  | .directory => (pathOf value).map fun directory => { fields with directory := some directory }
  | .directories => (pathsOf value).map fun directories => { fields with directories := some directories }
  | .code => (textOf "a string" value).map fun code => { fields with code := some code }
  | .success => (textOf "a string" value).map fun success => { fields with success := some success }
  | .failure => (optionalTextOf value).map fun failure => { fields with failure := some failure }
  | .start => (truthOf value).map fun start => { fields with start := some start }
  | .keepOutput => (truthOf value).map fun keepOutput => { fields with keepOutput := some keepOutput }
  | .offset => (naturalOf "usize" value).map fun offset => { fields with offset := some offset }
  | .enabled => (truthOf value).map fun enabled => { fields with enabled := some enabled }

/-- The fields with the value of one that was not found before. -/
def put (fields : Fields) (name : FieldName) (value : Json) : Except RequestFault Fields :=
  if fields.holds name then .error (.duplicate name.text) else fields.store value name

/-- The fields of a command among the members of an object. -/
def ofMembers (command : CommandName) (members : List (String × Json)) : Except RequestFault Fields :=
  members.foldlM
    (fun fields (name, value) =>
      match command.fields.find? (·.text == name) with
      | some field => fields.put field value
      | none => .ok fields)
    {}

/-- A field that must be there. -/
def need (name : FieldName) : Option α → Except RequestFault α
  | some value => .ok value
  | none => .error (.missing name.text)

/-- The request of a command with these fields. -/
def request (fields : Fields) : CommandName → Except RequestFault Request
  | .start => .ok .start
  | .stop => .ok .stop
  | .reset => .ok .reset
  | .clean => .ok .clean
  | .cleanTemplates => .ok .cleanTemplates
  | .compileFile => (need .file fields.file).map .compileFile
  | .compileWorkspace => (need .directory fields.directory).map .compileWorkspace
  | .compileFolders => (need .directories fields.directories).map .compileFolders
  | .runCurrentFile => (need .file fields.file).map .runCurrentFile
  | .loadAllKnown => (need .file fields.file).map .loadAllKnown
  | .run => (need .code fields.code).map .run
  | .runIfStarted => (need .code fields.code).map .runIfStarted
  | .runStatement => do
      let code ← need .code fields.code
      let success ← need .success fields.success
      return .runStatement
        { code, success, failure := fields.failure.join, start := fields.start.getD true
          keepOutput := fields.keepOutput.getD false }
  | .goto => do
      let file ← need .file fields.file
      let offset ← need .offset fields.offset
      return .goto file offset
  | .quitDebug => .ok .quitDebug
  | .outputFile => (need .enabled fields.enabled).map .outputFile
  | .diagnostics => .ok .diagnostics
  | .shutdown => .ok .shutdown

end Fields

/-- The name of the member that holds the command. -/
def commandKey : String := "command"

/-- The name of the member that holds the number of the request. -/
def idKey : String := "id"

/-- A command by its name or its number. -/
def CommandName.ofJson : Json → Except RequestFault CommandName
  | .string name =>
      match CommandName.ofText? name with
      | some command => .ok command
      | none => .error (.unknownCommand name)
  | .number (.natural index) =>
      match CommandName.all[index]? with
      | some command => .ok command
      | none => .error (.outOfRange (.nat index) s!"variant index 0 <= i < {CommandName.all.length}")
  | value => .error (.wrongType value "variant identifier")

/-- The command among the members of an object. -/
def CommandName.ofMembers (members : List (String × Json)) : Except RequestFault CommandName := do
  let found ← members.foldlM
    (fun (found : Option CommandName) (name, value) =>
      if name == commandKey then
        if found.isSome then .error (.duplicate commandKey) else (CommandName.ofJson value).map some
      else .ok found)
    none
  match found with
  | some command => return command
  | none => .error (.missing commandKey)

/-- The request that the members of an object ask for. -/
def Request.ofMembers (members : List (String × Json)) : Except RequestFault Request := do
  let command ← CommandName.ofMembers members
  let fields ← Fields.ofMembers command (members.filter (·.1 != commandKey))
  fields.request command

namespace Envelope

open Json (Fault Read faultAt faultBefore skipBlanks readWord readString readNumber readColon readValue nextKey)

/-- The fault of a value at the end of what was read. -/
def dataFault (fault : RequestFault) (rest : List Char) : Except Fault α :=
  faultAt (.data fault.message) rest

/-- The fault of a value of the wrong type.  A word, a number or a string is read before the fault; an array
or an object is not. -/
def wrongValue (expected : String) (text : List Char) : Except Fault α := do
  let (value, rest) ←
    match text with
    | '[' :: rest => .ok (.array [], '[' :: rest)
    | '\x7b' :: rest => .ok (.object [], '\x7b' :: rest)
    | text => readValue 0 1 text
  dataFault (.wrongType value expected) rest

/-- Read the number of a request. -/
def readId (text : List Char) : Except Fault (Option Nat × List Char) :=
  match skipBlanks text with
  | [] => faultBefore .endInValue []
  | 'n' :: rest => (readWord ['u', 'l', 'l'] rest).map (none, ·)
  | char :: rest =>
      if char = '-' ∨ char.isDigit then do
        let (number, rest) ← if char = '-' then readNumber true rest else readNumber false (char :: rest)
        match Fields.naturalOf "u64" (.number number) with
        | .ok id => return (some id, rest)
        | .error fault => dataFault fault rest
      else wrongValue "u64" (char :: rest)

/-- What is left of a text after the end of an object, if the object ends next. -/
def afterEnd (text : List Char) : List Char :=
  match skipBlanks text with
  | '\x7d' :: rest => rest
  | rest => rest

/-- Read the rest of the object of a request, with the number, and the members so far in reverse. -/
def readMembers :
    Nat → Bool → Option (Option Nat) → List (String × Json) → List Char → Except Fault (Envelope × List Char)
  | 0, _, _, _, rest => faultBefore .expectedValue rest
  | fuel + 1, first, id, members, text =>
      match nextKey first text with
      | .error fault => .error fault
      | .ok (false, rest) =>
          match Request.ofMembers members.reverse with
          | .ok request => .ok (⟨id.join, request⟩, rest.drop 1)
          | .error fault => dataFault fault (rest.drop 1)
      | .ok (true, rest) =>
          match readString rest with
          | .error fault => .error fault
          | .ok (name, rest) =>
              if name == idKey && id.isSome then dataFault (.duplicate idKey) (afterEnd rest)
              else
                match readColon rest with
                | .error fault => .error fault
                | .ok rest =>
                    if name == idKey then
                      match readId rest with
                      | .error fault => .error fault
                      | .ok (id, rest) => readMembers fuel false (some id) members rest
                    else
                      match readValue (Json.depthLimit - 1) (Json.readSteps rest) rest with
                      | .error fault => .error fault
                      | .ok (value, rest) => readMembers fuel false id ((name, value) :: members) rest

/-- Read the request that is the whole of a text. -/
def read (text : String) : Except Fault Envelope :=
  match skipBlanks text.toList with
  | [] => faultBefore .endInValue []
  | '\x7b' :: rest => do
      let (envelope, rest) ← readMembers (text.length + 1) true none [] rest
      match skipBlanks rest with
      | [] => return envelope
      | rest => faultBefore .trailingCharacters rest
  | rest => wrongValue "struct Envelope" rest

end Envelope
end CompilerRelay
