import CompilerRelay.Shell.Arithmetic
import CompilerRelay.Shell.Script

/-!
# Reading scripts

Scripts from their text.

**Algorithm.**  Reading goes down the grammar: lists of commands, chains with the operators for and, or and not,
and then single commands, which a word of the grammar begins if they are more than one command.  Every step takes
one unit of fuel; the length of the text bounds how much is needed.

**Place.**  A part of the stage on which the relay is rehearsed.
-/

namespace CompilerRelay
namespace Shell

/-- Whether a character ends a word that is not quoted. -/
def endsWord (char : Char) : Bool :=
  char == ' ' || char == '\t' || char == '\n' || char == ';' || char == '&' || char == '|' || char == '<'
    || char == '>' || char == '(' || char == ')'

/-- Whether a text is the name of a variable. -/
def isName : List Char → Bool
  | [] => false
  | first :: rest => isNameChar first && !first.isDigit && rest.all isNameChar

/-- The text after blanks within a line, ends of lines that are taken back, and a comment. -/
def skipBlanks : List Char → List Char
  | ' ' :: rest => skipBlanks rest
  | '\t' :: rest => skipBlanks rest
  | '\\' :: '\n' :: rest => skipBlanks rest
  | '#' :: rest => rest.dropWhile (· ≠ '\n')
  | text => text

/-- The text after blanks, comments, and ends of lines. -/
def skipLines : Nat → List Char → List Char
  | 0, text => text
  | fuel + 1, text =>
      match skipBlanks text with
      | '\n' :: rest => skipLines fuel rest
      | rest => rest

/-- The characters that stand for themselves after a backslash between double quotes only if they follow it. -/
def isEscapable (char : Char) : Bool :=
  char == '$' || char == '\x60' || char == '"' || char == '\\'

/-- The form that characters after the name of a variable ask for. -/
def readForm : List Char → Option (Form × List Char)
  | '#' :: '#' :: rest => some (.withoutStart true, rest)
  | '#' :: rest => some (.withoutStart false, rest)
  | '%' :: '%' :: rest => some (.withoutEnd true, rest)
  | '%' :: rest => some (.withoutEnd false, rest)
  | ':' :: '-' :: rest => some (.orElse, rest)
  | _ => none

/-- Put a character before the parts of a word. -/
def prepend (char : Char) (quoted : Bool) : Word → Word
  | .text chars own :: rest =>
      if own = quoted then .text (char :: chars) own :: rest
      else .text [char] quoted :: .text chars own :: rest
  | rest => .text [char] quoted :: rest

/-- Where a word ends. -/
inductive WordEnd where
  /-- At the end of the word. -/
  | word
  /-- At the closing double quote. -/
  | quote
  /-- At the closing brace. -/
  | brace
  deriving DecidableEq, Repr

/-- An expression up to the two parentheses that close it, with so many open inside, and what follows them. -/
def cutExpression : Nat → List Char → Option (List Char × List Char)
  | _, [] => none
  | depth, char :: rest =>
      if char = ')' && depth = 0 then (if rest.head? = some ')' then some ([], rest.drop 1) else none)
      else
        let after := if char = '(' then depth + 1 else if char = ')' then depth - 1 else depth
        (cutExpression after rest).map fun (inside, left) => (char :: inside, left)

mutual

/-- Read the parts of a word up to its end, which is taken too if it is a quote or a brace. -/
def readParts : Nat → WordEnd → List Char → Option (Word × List Char)
  | 0, _, _ => none
  | _ + 1, .word, [] => some ([], [])
  | _ + 1, .quote, [] | _ + 1, .brace, [] => none
  | fuel + 1, ending, char :: rest =>
      if ending = .word && endsWord char then some ([], char :: rest)
      else if ending = .quote && char = '"' then some ([], rest)
      else if ending = .brace && char = '\x7d' then some ([], rest)
      else if char = '$' then do
        let (part, rest) ← readReference fuel rest
        let (parts, after) ← readParts fuel ending rest
        return ((if ending = .quote then part.quote else part) :: parts, after)
      else if char = '\x60' then none
      else if ending = .quote then readQuotedChar fuel char rest
      else readPlainChar fuel ending char rest

/-- Read on after a character between double quotes. -/
def readQuotedChar : Nat → Char → List Char → Option (Word × List Char)
  | 0, _, _ => none
  | fuel + 1, char, rest =>
      match char, rest with
      | '\\', next :: rest =>
          if next = '\n' then readParts fuel .quote rest
          else if isEscapable next then
            (readParts fuel .quote rest).map fun (parts, after) => (prepend next true parts, after)
          else
            (readParts fuel .quote (next :: rest)).map fun (parts, after) => (prepend '\\' true parts, after)
      | char, rest => (readParts fuel .quote rest).map fun (parts, after) => (prepend char true parts, after)

/-- Read on after a character that is not between double quotes. -/
def readPlainChar : Nat → WordEnd → Char → List Char → Option (Word × List Char)
  | 0, _, _, _ => none
  | fuel + 1, ending, char, rest =>
      match char with
      | '\\' =>
          match rest with
          | [] => (readParts fuel ending []).map fun (parts, after) => (prepend '\\' true parts, after)
          | next :: rest =>
              if next = '\n' then readParts fuel ending rest
              else (readParts fuel ending rest).map fun (parts, after) => (prepend next true parts, after)
      | '\'' =>
          match rest.dropWhile (· ≠ '\'') with
          | [] => none
          | _ :: after =>
              (readParts fuel ending after).map fun (parts, after) =>
                (.text (rest.takeWhile (· ≠ '\'')) true :: parts, after)
      | '"' => do
          let (inner, rest) ← readParts fuel .quote rest
          let (parts, after) ← readParts fuel ending rest
          return (.text [] true :: inner ++ parts, after)
      | char => (readParts fuel ending rest).map fun (parts, after) => (prepend char false parts, after)

/-- Read a reference after its dollar sign. -/
def readReference : Nat → List Char → Option (Part × List Char)
  | 0, _ => none
  | fuel + 1, text =>
      match text with
      | '\x7b' :: rest =>
          let name := rest.takeWhile fun char => isNameChar char || char == '?'
          let after := rest.dropWhile fun char => isNameChar char || char == '?'
          if name.isEmpty then none
          else
            match after with
            | '\x7d' :: after => some (.variable name .value [] false, after)
            | after => do
                let (form, rest) ← readForm after
                let (argument, after) ← readParts fuel .brace rest
                return (.variable name form argument false, after)
      | '(' :: '(' :: rest => (cutExpression 0 rest).map fun (inside, after) => (.arithmetic inside false, after)
      | '(' :: _ => none
      | char :: rest =>
          if char.isDigit || char = '?' || char = '#' || char = '@' || char = '*' || char = '$' then
            some (.variable [char] .value [] false, rest)
          else if isNameChar char then
            some (.variable (text.takeWhile isNameChar) .value [] false, text.dropWhile isNameChar)
          else some (.text ['$'] false, text)
      | [] => some (.text ['$'] false, [])

end

/-- Read a word, if one begins here. -/
def readWord (text : List Char) : Option (Word × List Char) := do
  let (parts, rest) ← readParts (4 * text.length + 8) .word text
  if rest.length = text.length then none else return (parts, rest)

/-- The word of the grammar that a text begins with. -/
def keywordOf (text : List Char) : List Char :=
  match text with
  | ')' :: _ => [')']
  | ';' :: ';' :: _ => [';', ';']
  | _ => text.takeWhile fun char => char.isAlpha || char == '!' || char == '\x7b' || char == '\x7d'

/-- The text after a word of the grammar, if it begins with that word. -/
def afterKeyword? (word : String) (text : List Char) : Option (List Char) :=
  let rest := text.drop word.length
  if word.toList.isPrefixOf text && (word = ")" || word = ";;" || rest.head?.all endsWord) then some rest else none

/-- The words that end a list of commands. -/
def closers : List (List Char) :=
  ["do", "done", "then", "fi", "else", "elif", "esac", "\x7d", ")", ";;"].map String.toList

/-- Whether a list of commands ends here. -/
def isClosed (text : List Char) : Bool :=
  text.isEmpty || closers.any fun word => keywordOf text == word && (afterKeyword? (String.ofList word) text).isSome

/-- Read a redirection, if one begins here. -/
def readRedirect (text : List Char) : Option (Redirect × List Char) :=
  let (number, text) :=
    match text with
    | '1' :: '>' :: rest => (some 1, '>' :: rest)
    | '2' :: '>' :: rest => (some 2, '>' :: rest)
    | '0' :: '<' :: rest => (some 0, '<' :: rest)
    | rest => (none, rest)
  let errors := number = some 2
  match text with
  | '>' :: '&' :: '-' :: rest => some (.close errors, rest)
  | '<' :: '&' :: '-' :: rest => some (.closeInput, rest)
  | '>' :: '&' :: '1' :: rest => if errors then some (.errorsToOutput, rest) else none
  | '>' :: '&' :: '2' :: rest => some (.outputToErrors, rest)
  | '>' :: '>' :: rest => (readWord (skipBlanks rest)).map fun (file, after) => (.writeTo errors true file, after)
  | '>' :: rest => (readWord (skipBlanks rest)).map fun (file, after) => (.writeTo errors false file, after)
  | '<' :: rest => (readWord (skipBlanks rest)).map fun (file, after) => (.readFrom file, after)
  | _ => none

/-- Whether a redirection begins here. -/
def startsRedirect : List Char → Bool
  | '>' :: _ | '<' :: _ => true
  | '1' :: '>' :: _ | '2' :: '>' :: _ | '0' :: '<' :: _ => true
  | _ => false

/-- Read redirections after a command. -/
def readRedirects : Nat → List Char → Option (List Redirect × List Char)
  | 0, _ => none
  | fuel + 1, text =>
      let text := skipBlanks text
      if startsRedirect text then do
        let (redirect, rest) ← readRedirect text
        let (more, after) ← readRedirects fuel rest
        return (redirect :: more, after)
      else some ([], text)

/-- Read the words of a list up to its end. -/
def readWords : Nat → List Char → Option (List Word × List Char)
  | 0, _ => none
  | fuel + 1, text =>
      let text := skipBlanks text
      if text.head?.all endsWord then some ([], text)
      else do
        let (word, rest) ← readWord text
        let (more, after) ← readWords fuel rest
        return (word :: more, after)

/-- The name and the text of the value, if a text begins with an assignment. -/
def cutAssignment? (text : List Char) : Option (List Char × List Char) :=
  let name := text.takeWhile isNameChar
  match text.dropWhile isNameChar with
  | '=' :: rest => if isName name then some (name, rest) else none
  | _ => none

/-- Read a simple command: assignments, words and redirections. -/
def readSimple : Nat → Bool → List Char → Option (Command × List Char)
  | 0, _, _ => none
  | fuel + 1, assigning, text => do
      let text := skipBlanks text
      if startsRedirect text then
        let (redirect, rest) ← readRedirect text
        match ← readSimple fuel assigning rest with
        | (.simple assignments words redirects, after) =>
            return (.simple assignments words (redirect :: redirects), after)
        | _ => none
      else if text.head?.all endsWord then return (.simple [] [] [], text)
      else
        match (if assigning then cutAssignment? text else none) with
        | some (name, rest) =>
            let (value, rest) ← readParts (4 * rest.length + 8) .word rest
            match ← readSimple fuel true rest with
            | (.simple assignments words redirects, after) =>
                return (.simple ((name, value) :: assignments) words redirects, after)
            | _ => none
        | none =>
            let (word, rest) ← readWord text
            match ← readSimple fuel false rest with
            | (.simple assignments words redirects, after) =>
                return (.simple assignments (word :: words) redirects, after)
            | _ => none

/-- The patterns of an arm up to the parenthesis that closes them. -/
def readPatterns : Nat → List Char → Option (List Word × List Char)
  | 0, _ => none
  | fuel + 1, text => do
      let (word, rest) ← readWord (skipBlanks text)
      match skipBlanks rest with
      | '|' :: rest =>
          let (more, after) ← readPatterns fuel rest
          return (word :: more, after)
      | ')' :: rest => return ([word], rest)
      | _ => none

mutual

/-- Read a list of commands up to a word that closes it. -/
def readList : Nat → List Char → Option (Command × List Char)
  | 0, _ => none
  | fuel + 1, text =>
      let text := skipLines text.length text
      if isClosed text then some (.nothing, text)
      else do
        let (first, rest) ← readChain fuel text
        match skipBlanks rest with
        | ';' :: ';' :: rest => return (first, ';' :: ';' :: rest)
        | '&' :: rest =>
            let (second, after) ← readList fuel rest
            return (.sequence (.background first) second, after)
        | ';' :: rest | '\n' :: rest =>
            match ← readList fuel rest with
            | (.nothing, after) => return (first, after)
            | (second, after) => return (.sequence first second, after)
        | rest => if isClosed rest then return (first, rest) else none

/-- Read a chain of commands with the operators for and and or. -/
def readChain : Nat → List Char → Option (Command × List Char)
  | 0, _ => none
  | fuel + 1, text => do
      let (first, rest) ← readNegated fuel text
      readLinks fuel first rest

/-- Read the rest of a chain after a command. -/
def readLinks : Nat → Command → List Char → Option (Command × List Char)
  | 0, _, _ => none
  | fuel + 1, first, text =>
      match skipBlanks text with
      | '&' :: '&' :: rest => do
          let (second, after) ← readNegated fuel (skipLines rest.length rest)
          readLinks fuel (.both first second) after
      | '|' :: '|' :: rest => do
          let (second, after) ← readNegated fuel (skipLines rest.length rest)
          readLinks fuel (.either first second) after
      | '|' :: _ => none
      | rest => some (first, rest)

/-- Read a command with perhaps a mark that negates it. -/
def readNegated : Nat → List Char → Option (Command × List Char)
  | 0, _ => none
  | fuel + 1, text =>
      let text := skipBlanks text
      match afterKeyword? "!" text with
      | some rest => (readNegated fuel rest).map fun (command, after) => (.negate command, after)
      | none => readCommand fuel text

/-- Read a command. -/
def readCommand : Nat → List Char → Option (Command × List Char)
  | 0, _ => none
  | fuel + 1, text =>
      match afterKeyword? "while" text, afterKeyword? "until" text, afterKeyword? "if" text,
        afterKeyword? "for" text, afterKeyword? "case" text, afterKeyword? "\x7b" text with
      | some rest, _, _, _, _, _ => readLoop fuel false rest
      | _, some rest, _, _, _, _ => readLoop fuel true rest
      | _, _, some rest, _, _, _ => readBranch fuel rest
      | _, _, _, some rest, _, _ => readEach fuel rest
      | _, _, _, _, some rest, _ => readChoice fuel rest
      | _, _, _, _, _, some rest => readGroup fuel "\x7d" rest
      | _, _, _, _, _, _ =>
          match text with
          | '(' :: rest => readGroup fuel ")" rest
          | text => do
              let (command, rest) ← readSimple (text.length + 1) true text
              if rest.length = text.length then none else return (command, rest)

/-- Read the redirections after a command of several commands. -/
def readAfter : Nat → Command → List Char → Option (Command × List Char)
  | 0, _, _ => none
  | _ + 1, command, text => do
      let (redirects, rest) ← readRedirects (text.length + 1) text
      return (if redirects.isEmpty then command else .redirected command redirects, rest)

/-- Read a group after the word that opens it. -/
def readGroup : Nat → String → List Char → Option (Command × List Char)
  | 0, _, _ => none
  | fuel + 1, closer, text => do
      let (body, rest) ← readList fuel text
      readAfter fuel body (← afterKeyword? closer rest)

/-- Read a loop after its first word. -/
def readLoop : Nat → Bool → List Char → Option (Command × List Char)
  | 0, _, _ => none
  | fuel + 1, isUntil, text => do
      let (condition, rest) ← readList fuel text
      let (body, rest) ← readList fuel (← afterKeyword? "do" rest)
      readAfter fuel (.loop isUntil condition body) (← afterKeyword? "done" rest)

/-- Read a branch after its first word. -/
def readBranch : Nat → List Char → Option (Command × List Char)
  | 0, _ => none
  | fuel + 1, text => do
      let (condition, rest) ← readList fuel text
      let (yes, rest) ← readList fuel (← afterKeyword? "then" rest)
      match afterKeyword? "elif" rest, afterKeyword? "else" rest with
      | some rest, _ =>
          let (no, after) ← readBranch fuel rest
          return (.branch condition yes no, after)
      | none, some rest =>
          let (no, rest) ← readList fuel rest
          readAfter fuel (.branch condition yes no) (← afterKeyword? "fi" rest)
      | none, none => readAfter fuel (.branch condition yes .nothing) (← afterKeyword? "fi" rest)

/-- Read a walk over words after its first word. -/
def readEach : Nat → List Char → Option (Command × List Char)
  | 0, _ => none
  | fuel + 1, text => do
      let text := skipBlanks text
      let name := text.takeWhile isNameChar
      if !isName name then none
      let rest ← afterKeyword? "in" (skipBlanks (text.dropWhile isNameChar))
      let (words, rest) ← readWords (rest.length + 1) rest
      let rest ← match skipBlanks rest with
        | ';' :: rest | '\n' :: rest => some rest
        | _ => none
      let (body, rest) ← readList fuel (← afterKeyword? "do" (skipLines rest.length rest))
      readAfter fuel (.each name words body) (← afterKeyword? "done" rest)

/-- Read a choice after its first word. -/
def readChoice : Nat → List Char → Option (Command × List Char)
  | 0, _ => none
  | fuel + 1, text => do
      let (word, rest) ← readWord (skipBlanks text)
      let rest ← afterKeyword? "in" (skipLines rest.length rest)
      let (arms, rest) ← readArms fuel rest
      readAfter fuel (.choice word arms) rest

/-- Read the arms of a choice with the word that ends them. -/
def readArms : Nat → List Char → Option (List (List Word × Command) × List Char)
  | 0, _ => none
  | fuel + 1, text =>
      let text := skipLines text.length text
      match afterKeyword? "esac" text with
      | some rest => some ([], rest)
      | none => do
          let text := if text.head? = some '(' then text.drop 1 else text
          let (patterns, rest) ← readPatterns (text.length + 1) text
          let (body, rest) ← readList fuel rest
          match skipLines rest.length rest with
          | ';' :: ';' :: rest =>
              let (arms, after) ← readArms fuel rest
              return ((patterns, body) :: arms, after)
          | rest => return ([(patterns, body)], ← afterKeyword? "esac" rest)

end

/-- Read a script. -/
def readScript (text : List Char) : Option Command := do
  let (command, rest) ← readList (8 * text.length + 16) text
  if rest.isEmpty then return command else none

end Shell
end CompilerRelay
