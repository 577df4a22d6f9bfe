import CompilerRelay.Diagnostic

/-!
# Lines of compiler output

The compiler reports diagnostics and definitions as lines that begin with a bracketed header of four fields
separated by colons: a marker, a file, a line and a column.  Every other line is plain output.

**Input.**  A complete line, and the directory that relative file names refer to.

**Algorithm.**  The header ends at the first closing bracket, or with the line.  It has to have exactly four
fields; the file must not be blank and both numbers must be positions.  The rest of the line is the message.

**Results.**  `parse_of_no_bracket`: a line that does not begin with a bracket is plain output.
-/

namespace CompilerRelay

/-- What a line of compiler output is. -/
inductive OutputLine where
  | diagnostic (path : Path) (diagnostic : Diagnostic)
  | definition (location : Location)
  | plain
  deriving DecidableEq, Repr

namespace OutputLine

/-- The marker of a definition. -/
def definitionMarker : String := "DEFINITION"

/-- A file named in the output, relative to a directory unless it is absolute. -/
def resolve (root : Path) (file : List Char) : Path :=
  let path : Path := ⟨String.ofList file⟩
  if path.isAbsolute then path else root.join path

/-- The message of a diagnostic: what follows the header, or the name of the severity if that is blank. -/
def messageOf (severity : Severity) (rest : List Char) : String :=
  match Text.trim rest with
  | [] => severity.label
  | message => String.ofList message

/-- Read the fields of a header and the rest of the line. -/
def ofHeader (root : Path) (fields : List (List Char)) (rest : List Char) : OutputLine :=
  match fields with
  | [marker, file, line, column] =>
      match Text.trim file, Position.ofOneBased? line, Position.ofOneBased? column with
      | [], _, _ => .plain
      | file, some line, some column =>
          let path := resolve root file
          if String.ofList marker = definitionMarker then .definition ⟨path, line, column⟩
          else
            match Severity.ofMarker? (String.ofList marker) with
            | none => .plain
            | some severity => .diagnostic path ⟨severity, messageOf severity rest, line, column⟩
      | _, _, _ => .plain
  | _ => .plain

/-- Classify a complete line of output. -/
def parse (line : String) (root : Path) : OutputLine :=
  match line.toList with
  | '[' :: rest =>
      let header := rest.takeWhile (· ≠ ']')
      ofHeader root (Text.splitOn ':' header) ((rest.dropWhile (· ≠ ']')).drop 1)
  | _ => .plain

theorem parse_of_no_bracket
    {line : String} (root : Path)
    (noBracket : line.toList.head? ≠ some '[') :
    parse line root = .plain := by
  unfold parse
  split
  · next rest same => simp [same] at noBracket
  · rfl

end OutputLine
end CompilerRelay
