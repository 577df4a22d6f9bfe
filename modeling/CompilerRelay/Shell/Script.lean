/-!
# Scripts

Scripts for a small shell, as trees.

**Texts.**  A text of the shell is a string of bytes; each byte is the character with its number.

**Words.**  A word is put together from texts and references to variables.  Each part knows whether it was quoted:
quoted parts are never split, and have no special characters in patterns.

**Place.**  The shell plays the compiler when the relay is rehearsed.  It is a stage for the relay and no part of its
theory.
-/

namespace CompilerRelay
namespace Shell

/-- What a reference takes from the value of its variable. -/
inductive Form where
  | value
  /-- The value without what a pattern matches at its start. -/
  | withoutStart (longest : Bool)
  /-- The value without what a pattern matches at its end. -/
  | withoutEnd (longest : Bool)
  /-- The value, or another text if it is empty. -/
  | orElse
  deriving DecidableEq, Repr

/-- A part of a word. -/
inductive Part where
  | text (chars : List Char) (quoted : Bool)
  | variable (name : List Char) (form : Form) (argument : List Part) (quoted : Bool)
  /-- The value of an expression over integers. -/
  | arithmetic (expression : List Char) (quoted : Bool)

/-- A word. -/
abbrev Word := List Part

namespace Part

/-- Whether a part was quoted. -/
def quoted : Part → Bool
  | .text _ quoted => quoted
  | .variable _ _ _ quoted => quoted
  | .arithmetic _ quoted => quoted

/-- A part as it is between double quotes. -/
def quote : Part → Part
  | .text chars _ => .text chars true
  | .variable name form argument _ => .variable name form argument true
  | .arithmetic expression _ => .arithmetic expression true

end Part

/-- Where the input or output of a command is led. -/
inductive Redirect where
  | readFrom (file : Word)
  /-- Output or, with `errors`, errors to a file. -/
  | writeTo (errors appending : Bool) (file : Word)
  /-- Output to where errors go. -/
  | outputToErrors
  /-- Errors to where output goes. -/
  | errorsToOutput
  | closeInput
  /-- Nowhere: output or, with `errors`, errors. -/
  | close (errors : Bool)

/-- A command of a script. -/
inductive Command where
  | nothing
  | simple (assignments : List (List Char × Word)) (words : List Word) (redirects : List Redirect)
  | sequence (first second : Command)
  /-- The second only if the first succeeds. -/
  | both (first second : Command)
  /-- The second only if the first fails. -/
  | either (first second : Command)
  | negate (command : Command)
  /-- Again and again while a condition holds, or until it does. -/
  | loop (isUntil : Bool) (condition body : Command)
  | branch (condition yes no : Command)
  | each (name : List Char) (words : List Word) (body : Command)
  | choice (word : Word) (arms : List (List Word × Command))
  | redirected (command : Command) (redirects : List Redirect)
  /-- Beside what follows. -/
  | background (command : Command)

end Shell
end CompilerRelay
