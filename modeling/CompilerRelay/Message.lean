import CompilerRelay.Json
import CompilerRelay.Path.Uri
import CompilerRelay.Store

/-!
# Messages to the editor

The lines that leave the relay: one object of JSON each.  Answers to requests carry the number of the
request if it had one; events carry none.

**Form.**  The first member tells the type of the message.  Members that are optional are left out where
there is nothing to tell.  Paths leave as locators.
-/

namespace CompilerRelay

/-- How a statement was answered. -/
inductive StatementReply where
  | matched
  | skipped
  deriving DecidableEq, Repr

/-- The diagnostics of one file, by its locator. -/
structure FileDiagnostics where
  uri : String
  items : List Diagnostic
  deriving DecidableEq, Repr

/-- A line to the editor. -/
inductive Message where
  | ok (id : Option Nat) (uri : Option String)
  | error (id : Option Nat) (text : String)
  | location (id : Option Nat) (uri : String) (line column : UInt32)
  | statement (id : Option Nat) (outcome : StatementReply) (line : Option String)
  | snapshot (id : Option Nat) (errors warnings : Nat) (status : String) (files : List FileDiagnostics)
  | output (line : String)
  | outputCleared
  | diagnostics (uri : String) (items : List Diagnostic)
  | diagnosticsCleared
  | notification (text : String)
  | sessionStopped (reason : String)
  deriving DecidableEq, Repr

namespace StopReason

/-- The wording of a reason. -/
def describe : StopReason → String
  | .exited => "exited"
  | .failed cause => "failed: " ++ cause

end StopReason

namespace Message

/-- An answer that names a path. -/
def okWithPath (id : Option Nat) (path : Path) : Message :=
  .ok id (some (Uri.ofPath path))

/-- An answer that names a place. -/
def ofLocation (id : Option Nat) (place : Location) : Message :=
  .location id (Uri.ofPath place.path) place.line place.column

/-- An answer with all diagnostics. -/
def ofSnapshot (id : Option Nat) (all : Snapshot) : Message :=
  .snapshot id all.errorCount all.warningCount all.status
    (all.files.map fun entry => ⟨Uri.ofPath entry.1, entry.2⟩)

/-- The message that tells the editor an event. -/
def ofEvent : Event → Message
  | .output line => .output line
  | .outputCleared => .outputCleared
  | .diagnostics path items => .diagnostics (Uri.ofPath path) items
  | .diagnosticsCleared => .diagnosticsCleared
  | .notification text => .notification text
  | .sessionStopped reason => .sessionStopped reason.describe

/-- The number of the request that a message answers. -/
def id? : Message → Option Nat
  | .ok id _ | .error id _ | .location id _ _ _ | .statement id _ _ | .snapshot id _ _ _ _ => id
  | _ => none

/-- Whether a message answers a request. -/
def isReply : Message → Bool
  | .ok .. | .error .. | .location .. | .statement .. | .snapshot .. => true
  | _ => false

/-- A member that is left out where there is nothing to tell. -/
def optionalMember (name : String) (value : Option Json) : List (String × Json) :=
  (value.map (name, ·)).toList

/-- The members of a message that answers the request with a number. -/
def idMember (id : Option Nat) : List (String × Json) :=
  optionalMember "id" (id.map Json.nat)

/-- A diagnostic as an object. -/
def diagnosticJson (diagnostic : Diagnostic) : Json :=
  .object
    [("severity", .string diagnostic.severity.label), ("message", .string diagnostic.message),
     ("line", .nat diagnostic.line.toNat), ("col", .nat diagnostic.column.toNat)]

/-- A list of diagnostics as an array. -/
def itemsJson (items : List Diagnostic) : Json :=
  .array (items.map diagnosticJson)

/-- The diagnostics of a file as an object. -/
def fileJson (file : FileDiagnostics) : Json :=
  .object [("uri", .string file.uri), ("items", itemsJson file.items)]

/-- The type of a message. -/
def typeName : Message → String
  | .ok .. => "ok"
  | .error .. => "error"
  | .location .. => "location"
  | .statement .. => "statement"
  | .snapshot .. => "snapshot"
  | .output .. => "output"
  | .outputCleared => "output_cleared"
  | .diagnostics .. => "diagnostics"
  | .diagnosticsCleared => "diagnostics_cleared"
  | .notification .. => "notification"
  | .sessionStopped .. => "session_stopped"

/-- The word for the answer to a statement. -/
def replyName : StatementReply → String
  | .matched => "matched"
  | .skipped => "skipped"

/-- The members of a message after its type. -/
def members : Message → List (String × Json)
  | .ok id uri => idMember id ++ optionalMember "uri" (uri.map .string)
  | .error id text => idMember id ++ [("message", .string text)]
  | .location id uri line column =>
      idMember id
        ++ [("uri", .string uri), ("line", .nat line.toNat), ("col", .nat column.toNat)]
  | .statement id outcome line =>
      idMember id ++ ("outcome", .string (replyName outcome))
        :: optionalMember "line" (line.map .string)
  | .snapshot id errors warnings status files =>
      idMember id
        ++ [("errors", .nat errors), ("warnings", .nat warnings), ("status", .string status),
            ("files", .array (files.map fileJson))]
  | .output line => [("line", .string line)]
  | .outputCleared => []
  | .diagnostics uri items => [("uri", .string uri), ("items", itemsJson items)]
  | .diagnosticsCleared => []
  | .notification text => [("message", .string text)]
  | .sessionStopped reason => [("reason", .string reason)]

/-- A message as a value. -/
def toJson (message : Message) : Json :=
  .object (("type", .string message.typeName) :: message.members)

/-- A message as a line, without the newline. -/
def encode (message : Message) : String :=
  message.toJson.compress

/-- The bytes that leave for a list of messages: one line each. -/
def encodeAll (messages : List Message) : Bytes :=
  messages.flatMap fun message => Utf8.encode (message.encode ++ "\n")

end Message
end CompilerRelay
