import CompilerRelay.Event
import CompilerRelay.Path.Map

/-!
# The store of diagnostics

The diagnostics of every file, as the events tell them, and what is shown of them.

**Order.**  A snapshot lists the files with at least one error before the others, and each group in the
order of paths.
-/

namespace CompilerRelay

/-- The diagnostics of every file that has some. -/
structure Store where
  files : PathMap (List Diagnostic) := {}
  deriving DecidableEq, Repr

/-- All diagnostics at one moment, in the order in which they are shown. -/
structure Snapshot where
  files : List (Path × List Diagnostic)
  deriving DecidableEq, Repr

namespace Snapshot

/-- All diagnostics of a snapshot. -/
def items (snapshot : Snapshot) : List Diagnostic :=
  snapshot.files.flatMap Prod.snd

/-- How many diagnostics there are. -/
def totalCount (snapshot : Snapshot) : Nat :=
  snapshot.items.length

/-- How many of them are errors. -/
def errorCount (snapshot : Snapshot) : Nat :=
  snapshot.items.countP (·.severity.isError)

/-- How many of them are warnings. -/
def warningCount (snapshot : Snapshot) : Nat :=
  snapshot.totalCount - snapshot.errorCount

/-- The counts as a short text; nothing if there are no files. -/
def status (snapshot : Snapshot) : String :=
  if snapshot.files = [] then ""
  else s!"E:{snapshot.errorCount} W:{snapshot.warningCount}"

end Snapshot

namespace Store

/-- Set the list of a file; an empty list forgets the file. -/
def set (store : Store) (path : Path) (items : List Diagnostic) : Store :=
  if items = [] then ⟨store.files.erase path⟩ else ⟨store.files.insert path items⟩

/-- Forget a file. -/
def delete (store : Store) (path : Path) : Store :=
  ⟨store.files.erase path⟩

/-- Forget every file. -/
def clear (_ : Store) : Store :=
  {}

/-- The diagnostics of a file. -/
def find? (store : Store) (path : Path) : Option (List Diagnostic) :=
  store.files.find? path

/-- Take in an event; those that are not about diagnostics change nothing. -/
def apply (store : Store) : Event → Store
  | .diagnostics path items => store.set path items
  | .diagnosticsCleared => store.clear
  | _ => store

/-- The store after a list of events, from nothing. -/
def ofEvents (events : List Event) : Store :=
  events.foldl apply {}

/-- Whether a file has an error. -/
def hasError (entry : Path × List Diagnostic) : Bool :=
  entry.2.any (·.severity.isError)

/-- Whether a file is shown before another or is the same file. -/
def shownFirst (first second : Path × List Diagnostic) : Bool :=
  if hasError first = hasError second then first.1.atMost second.1 else hasError first

/-- All diagnostics, in the order in which they are shown. -/
def snapshot (store : Store) : Snapshot :=
  ⟨store.files.entries.mergeSort shownFirst⟩

end Store
end CompilerRelay
