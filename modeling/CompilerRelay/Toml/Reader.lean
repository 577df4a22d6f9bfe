import CompilerRelay.Toml.Quoted

/-!
# Reading TOML

Documents from their text.

**Algorithm.**  The text is read line by line; a line is a header or an assignment.  A value may span lines where it
is in brackets or braces.  Brackets and braces may be nested eighty deep.  The first fault ends the reading, and
there is no document then.

**Place.**  A part of the start of the program, where the configuration is read.
-/

namespace CompilerRelay
namespace Toml

/-- The text after blanks within a line. -/
def skipSpaces (text : List Char) : List Char :=
  text.dropWhile isSpace

/-- The text after blanks, ends of lines and comments. -/
def skipFill : Bool → List Char → Option (List Char)
  | _, [] => some []
  | _, '\r' :: '\n' :: rest => skipFill false rest
  | true, char :: rest =>
      if char = '\n' then skipFill false rest
      else if isCommentChar char then skipFill true rest
      else none
  | false, char :: rest =>
      if char = '#' then skipFill true rest
      else if isSpace char || char = '\n' then skipFill false rest
      else some (char :: rest)

/-- The text after the end of a line, with perhaps a comment before it. -/
def endLine (text : List Char) : Option (List Char) :=
  let rest := skipSpaces text
  if rest.isEmpty || rest.head? = some '#' || startsLine rest then skipFill false rest else none

/-- Whether a character may stand in a key without quotes. -/
def isKeyChar (char : Char) : Bool :=
  char.isAlphanum || char == '_' || char == '-'

/-- Read one part of a key. -/
def readKey (text : List Char) : Option (String × List Char) :=
  match text with
  | '"' :: _ | '\'' :: _ => (readQuoted false text).map fun (key, rest) => (String.ofList key, rest)
  | _ =>
      let key := text.takeWhile isKeyChar
      if key.isEmpty then none else some (String.ofList key, text.dropWhile isKeyChar)

/-- Read a key with dots: the parts before the last one, the last one, and the text after blanks. -/
def readPath : Nat → List Char → Option (List String × String × List Char)
  | 0, _ => none
  | fuel + 1, text => do
      let (key, rest) ← readKey (skipSpaces text)
      match skipSpaces rest with
      | '.' :: rest =>
          let (path, last, after) ← readPath fuel rest
          return (key :: path, last, after)
      | rest => return ([], key, rest)

/-- Whether a character may stand in a value without quotes. -/
def isScalarChar (char : Char) : Bool :=
  char.isAlphanum || char == '+' || char == '-' || char == '_' || char == '.' || char == ':'

/-- Cut the value without quotes off the start of a text; a blank may stand between a date and a time. -/
def cutScalar (text : List Char) : List Char × List Char :=
  let lead := text.takeWhile isScalarChar
  match text.dropWhile isScalarChar with
  | ' ' :: char :: rest =>
      if isDate lead && char.isDigit then
        (lead ++ ' ' :: (char :: rest).takeWhile isScalarChar, (char :: rest).dropWhile isScalarChar)
      else (lead, ' ' :: char :: rest)
  | rest => (lead, rest)

/-- How deep brackets and braces may be nested. -/
def nestingLimit : Nat := 80

mutual

/-- Read a value. -/
def readValue : Nat → Nat → List Char → Option (Toml × List Char)
  | 0, _, _ => none
  | fuel + 1, depth, text =>
      match text, depth with
      | '[' :: rest, levels + 1 =>
          (readItems fuel levels rest).map fun (items, after) => (.array items, after)
      | '\x7b' :: rest, levels + 1 =>
          (readMembers fuel levels [] rest).map fun (members, after) => (.table .inline members, after)
      | '"' :: _, _ | '\'' :: _, _ =>
          (readQuoted true text).map fun (text, after) => (.string (String.ofList text), after)
      | _, _ =>
          let (lead, after) := cutScalar text
          (ofScalar lead).map fun value => (value, after)

/-- Read the items of an array after its bracket or a comma. -/
def readItems : Nat → Nat → List Char → Option (List Toml × List Char)
  | 0, _, _ => none
  | fuel + 1, depth, text => do
      match ← skipFill false text with
      | ']' :: rest => return ([], rest)
      | text =>
          let (item, rest) ← readValue fuel depth text
          match ← skipFill false rest with
          | ',' :: rest =>
              let (items, after) ← readItems fuel depth rest
              return (item :: items, after)
          | ']' :: rest => return ([item], rest)
          | _ => none

/-- Read the members of a table in braces after its brace or a comma, behind those that came before. -/
def readMembers : Nat → Nat → Members → List Char → Option (Members × List Char)
  | 0, _, _, _ => none
  | fuel + 1, depth, members, text => do
      match ← skipFill false text with
      | '\x7d' :: rest => return (members, rest)
      | text =>
          let (path, key, rest) ← readPath text.length text
          match rest with
          | '=' :: rest =>
              let (value, rest) ← readValue fuel depth (skipSpaces rest)
              let members ← assign path key value members
              match ← skipFill false rest with
              | ',' :: rest => readMembers fuel depth members rest
              | '\x7d' :: rest => return (members, rest)
              | _ => none
          | _ => none

end

/-- Read a header after its brackets: the table that it opens, and the text after the line. -/
def readHeader (listed : Bool) (members : Members) (text : List Char) :
    Option (List String × Members × List Char) := do
  let (path, key, rest) ← readPath (text.length + 1) text
  let opened ← if listed then openEntry path key members else openTable path key members
  match listed, rest with
  | true, ']' :: ']' :: rest | false, ']' :: rest => return (path ++ [key], opened, ← endLine rest)
  | _, _ => none

/-- Read an assignment in the table of a header. -/
def readAssignment (header : List String) (members : Members) (text : List Char) :
    Option (Members × List Char) := do
  let (path, key, rest) ← readPath (text.length + 1) text
  match rest with
  | '=' :: rest =>
      let (value, rest) ← readValue (text.length + 1) nestingLimit (skipSpaces rest)
      let assigned ← within false header (assign path key value) members
      return (assigned, ← endLine rest)
  | _ => none

/-- Read the lines of a document, of which this much was read. -/
def readLines : Nat → List String → Members → List Char → Option Members
  | 0, _, _, _ => none
  | fuel + 1, header, members, text => do
      match ← skipFill false text with
      | [] => return members
      | '[' :: '[' :: rest =>
          let (header, members, rest) ← readHeader true members rest
          readLines fuel header members rest
      | '[' :: rest =>
          let (header, members, rest) ← readHeader false members rest
          readLines fuel header members rest
      | text =>
          let (members, rest) ← readAssignment header members text
          readLines fuel header members rest

/-- A text without the mark that says it is one of Unicode. -/
def dropMark : List Char → List Char
  | '\uFEFF' :: rest => rest
  | text => text

/-- Read a document. -/
def read (text : String) : Option Members :=
  let chars := dropMark text.toList
  readLines (chars.length + 1) [] [] chars

end Toml
end CompilerRelay
