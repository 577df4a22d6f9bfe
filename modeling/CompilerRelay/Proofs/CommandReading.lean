import CompilerRelay.Command
import Mathlib.Algebra.BigOperators.Group.List.Basic
import Mathlib.Data.List.Infix

/-!
# What a statement says

A command is told to the compiler by a statement, and the compiler sees nothing but the statement.

**Input.**  Commands other than code that is passed on, with any paths.

**Algorithm.**  A path is written between quotes as it is.  Where one directory of a block ends and the next begins, the
same characters stand each time, the seam; a directory whose text holds the seam is read as several.

**Results.**
* `Text.cutAtWord_join`: pieces that were joined by a word are cut apart again, each at the words it holds itself.
* `Command.render_eq_iff`: two statements are the same exactly when they are read as the same command.
* `Command.rendering_law`: when a command is read as it was given, and when its statement is one line.
-/

namespace CompilerRelay
namespace Text

/-! ## Words between pieces -/

section Word

variable {α : Type} [DecidableEq α]

/-- The pieces of a text before, between and after the occurrences of a word. -/
def cutAtWord (word : List α) : List α → List (List α)
  | [] => [[]]
  | char :: text =>
      match cutAtWord word text with
      | [] => [[char]]
      | piece :: pieces =>
          if word.isPrefixOf (char :: piece) then [] :: (char :: piece).drop word.length :: pieces
          else (char :: piece) :: pieces

theorem cutAtWord_ne_nil (word text : List α) : cutAtWord word text ≠ [] := by
  cases text with
  | nil => simp [cutAtWord]
  | cons char text =>
      unfold cutAtWord
      split
      · simp
      · split <;> simp

theorem join_cutAtWord (word text : List α) : join word (cutAtWord word text) = text := by
  induction text with
  | nil => rfl
  | cons char text ih =>
      unfold cutAtWord
      cases hcut : cutAtWord word text with
      | nil => exact absurd hcut (cutAtWord_ne_nil word text)
      | cons piece pieces =>
          rw [hcut] at ih
          have hwhole : join word ((char :: piece) :: pieces) = char :: text := by
            rw [← ih]
            cases pieces <;> simp [join]
          by_cases hword : word.isPrefixOf (char :: piece) = true
          · simp only [hword, if_true]
            obtain ⟨rest, hrest⟩ := List.isPrefixOf_iff_prefix.mp hword
            rw [← hwhole, ← hrest, List.drop_left, join_cons_cons, List.nil_append]
            cases pieces with
            | nil => simp [join]
            | cons second others => rw [join_cons_cons, join_cons_cons, List.append_assoc]
          · simpa [hword] using hwhole

section Single

variable {first : α} {tail : List α} (hfirst : first ∉ tail)
include hfirst

/-- A part of the word that does not begin with its first character belongs to the piece after it. -/
theorem cutAtWord_suffix
    {part text piece : List α} {pieces : List (List α)} (hpart : part <:+ tail)
    (hcut : cutAtWord (first :: tail) text = piece :: pieces) :
    cutAtWord (first :: tail) (part ++ text) = (part ++ piece) :: pieces := by
  induction part with
  | nil => exact hcut
  | cons char part ih =>
      have hother : first ≠ char := fun h => hfirst (h ▸ hpart.subset List.mem_cons_self)
      rw [List.cons_append, cutAtWord, ih ((List.suffix_cons char part).trans hpart)]
      simp [List.isPrefixOf, hother]

theorem cutAtWord_word (text : List α) :
    cutAtWord (first :: tail) ((first :: tail) ++ text) = [] :: cutAtWord (first :: tail) text := by
  cases hcut : cutAtWord (first :: tail) text with
  | nil => exact absurd hcut (cutAtWord_ne_nil _ _)
  | cons piece pieces =>
      rw [List.cons_append, cutAtWord, cutAtWord_suffix hfirst List.suffix_rfl hcut]
      have hword : (first :: tail).isPrefixOf (first :: (tail ++ piece)) = true :=
        List.isPrefixOf_iff_prefix.mpr (List.prefix_append (first :: tail) piece)
      simp only [hword, if_true]
      rw [← List.cons_append, List.drop_left]

/-- Both sides of a word are cut on their own. -/
theorem cutAtWord_append (before after : List α) :
    cutAtWord (first :: tail) (before ++ ((first :: tail) ++ after)) =
      cutAtWord (first :: tail) before ++ cutAtWord (first :: tail) after := by
  induction before with
  | nil => exact cutAtWord_word hfirst after
  | cons char before ih =>
      rw [List.cons_append, cutAtWord, cutAtWord, ih]
      cases hcut : cutAtWord (first :: tail) before with
      | nil => exact absurd hcut (cutAtWord_ne_nil _ _)
      | cons piece pieces =>
          simp only [List.cons_append]
          split <;> rfl

/-- Pieces that were joined are cut apart again, each at the words that it holds itself. -/
theorem cutAtWord_join {pieces : List (List α)} (hpieces : pieces ≠ []) :
    cutAtWord (first :: tail) (join (first :: tail) pieces) = pieces.flatMap (cutAtWord (first :: tail)) := by
  induction pieces with
  | nil => exact absurd rfl hpieces
  | cons piece rest ih =>
      cases rest with
      | nil => simp [join]
      | cons second others =>
          rw [join_cons_cons, cutAtWord_append hfirst, ih (by simp)]
          rfl

/-- A text is its only piece exactly when the word does not occur in it. -/
theorem cutAtWord_eq_singleton_iff (text : List α) :
    cutAtWord (first :: tail) text = [text] ↔ ¬ first :: tail <:+: text := by
  constructor
  · rintro hcut ⟨before, after, htext⟩
    rw [← htext, List.append_assoc, cutAtWord_append hfirst] at hcut
    have hlengths := congrArg List.length hcut
    have hbefore := List.length_pos_of_ne_nil (cutAtWord_ne_nil (first :: tail) before)
    have hafter := List.length_pos_of_ne_nil (cutAtWord_ne_nil (first :: tail) after)
    rw [List.length_append, List.length_singleton] at hlengths
    omega
  · intro hfree
    have hjoin := join_cutAtWord (first :: tail) text
    cases hcut : cutAtWord (first :: tail) text with
    | nil => exact absurd hcut (cutAtWord_ne_nil _ _)
    | cons piece pieces =>
        rw [hcut] at hjoin
        cases pieces with
        | nil => rw [← hjoin]; simp [join]
        | cons second others =>
            rw [join_cons_cons] at hjoin
            exact absurd ⟨piece, _, (List.append_assoc _ _ _).trans hjoin⟩ hfree

end Single
end Word

/-- What stands before the last occurrence of a character, and what stands after it. -/
theorem append_cons_inj_of_notMem_right
    {α : Type} {char : α} {before other after next : List α} (hafter : char ∉ after) (hnext : char ∉ next)
    (h : before ++ char :: after = other ++ char :: next) :
    before = other ∧ after = next := by
  rcases List.append_eq_append_iff.mp h with ⟨gap, hgap, hrest⟩ | ⟨gap, hgap, hrest⟩
  all_goals
    cases gap with
    | nil => simp_all
    | cons first gap =>
        obtain ⟨-, hrest⟩ := List.cons.inj hrest
        simp [hrest] at hafter hnext

end Text

namespace Command

/-- Whether a command is code that is passed on as it is. -/
def isRaw : Command → Bool
  | .raw _ => true
  | .loadAll _ | .compileAllBelow _ | .compileFile _ | .runFile _ | .refers _ _ | .quitDebug => false

/-- The paths in a command. -/
def paths : Command → List Path
  | .loadAll file | .compileFile file | .runFile file | .refers file _ => [file]
  | .compileAllBelow directories => directories
  | .quitDebug | .raw _ => []

/-- The directories below which a command compiles everything. -/
def directories : Command → List Path
  | .compileAllBelow directories => directories
  | .loadAll _ | .compileFile _ | .runFile _ | .refers _ _ | .quitDebug | .raw _ => []

/-- What ends a directory in a block and begins the next. -/
def seam : List Char := '/' :: (compileBelowEnd ++ compileBelowStart)

/-- The directories as which the text of one is read. -/
def readDirectories (directory : Path) : List Path :=
  (Text.cutAtWord seam directory.bareSlashed).map fun piece => ⟨String.ofList piece⟩

/-- A file as it is spelled in a statement. -/
def spelledFile (file : Path) : Path := ⟨String.ofList file.slashed⟩

/-- A directory as it is spelled in a statement, without the slash at its end. -/
def spelledDirectory (directory : Path) : Path := ⟨String.ofList directory.bareSlashed⟩

/-- A command with others in place of its paths. -/
def mapPaths (onFile : Path → Path) (onDirectory : Path → List Path) : Command → Command
  | .loadAll file => .loadAll (onFile file)
  | .compileAllBelow directories => .compileAllBelow (directories.flatMap onDirectory)
  | .compileFile file => .compileFile (onFile file)
  | .runFile file => .runFile (onFile file)
  | .refers file offset => .refers (onFile file) offset
  | .quitDebug => .quitDebug
  | .raw code => .raw code

/-- The command with its paths as they are spelled. -/
def spelled : Command → Command :=
  mapPaths spelledFile fun directory => [spelledDirectory directory]

/-- The command as which its statement is read. -/
def asRead : Command → Command :=
  mapPaths spelledFile readDirectories

/-! ## Directories in a block -/

section Directories

variable {directory : Path} {directories others : List Path}

/-- The seam begins with its only slash. -/
theorem slash_notMem_seam : '/' ∉ compileBelowEnd ++ compileBelowStart := by decide

theorem readDirectories_ne_nil (directory : Path) : readDirectories directory ≠ [] := by
  rw [readDirectories, Ne, List.map_eq_nil_iff]
  exact Text.cutAtWord_ne_nil _ _

theorem path_ofList_injective : Function.Injective fun text => Path.mk (String.ofList text) :=
  fun _ _ h => String.ofList_injective (Path.mk.inj h)

/-- The text of a block: the directories with a seam between any two. -/
theorem flatMap_compileBelowCall (directory : Path) (directories : List Path) :
    (directory :: directories).flatMap compileBelowCall =
      compileBelowStart ++ (Text.join seam ((directory :: directories).map Path.bareSlashed) ++
        '/' :: compileBelowEnd) := by
  induction directories generalizing directory with
  | nil => simp [compileBelowCall, directoryText, Text.join]
  | cons second rest ih =>
      have hjoin : Text.join seam ((directory :: second :: rest).map Path.bareSlashed) =
          directory.bareSlashed ++ (seam ++ Text.join seam ((second :: rest).map Path.bareSlashed)) :=
        Text.join_cons_cons _ _ _ _
      rw [List.flatMap_cons, ih, hjoin, compileBelowCall, directoryText, seam]
      simp only [List.append_assoc, List.cons_append, List.nil_append]

/-- What is between the directories of a block is found again. -/
theorem flatMap_readDirectories (hsome : directories ≠ []) :
    directories.flatMap readDirectories =
      (Text.cutAtWord seam (Text.join seam (directories.map Path.bareSlashed))).map
        fun piece => ⟨String.ofList piece⟩ := by
  have hmap : directories.map Path.bareSlashed ≠ [] := by simpa using hsome
  have hcut : Text.cutAtWord seam (Text.join seam (directories.map Path.bareSlashed)) =
      (directories.map Path.bareSlashed).flatMap (Text.cutAtWord seam) :=
    Text.cutAtWord_join slash_notMem_seam hmap
  rw [hcut, List.map_flatMap, List.flatMap_map]
  rfl

/-- Two blocks are the same text exactly when they are read as the same directories. -/
theorem flatMap_compileBelowCall_eq_iff :
    directories.flatMap compileBelowCall = others.flatMap compileBelowCall ↔
      directories.flatMap readDirectories = others.flatMap readDirectories := by
  have hcall (directory : Path) (rest : List Path) : (directory :: rest).flatMap compileBelowCall ≠ [] := by
    simp [compileBelowCall, directoryText]
  have hread (directory : Path) (rest : List Path) : (directory :: rest).flatMap readDirectories ≠ [] := by
    simp [readDirectories_ne_nil]
  cases directories with
  | nil =>
      cases others with
      | nil => exact ⟨fun _ => rfl, fun _ => rfl⟩
      | cons other more => exact ⟨fun h => absurd h.symm (hcall other more), fun h => absurd h.symm (hread other more)⟩
  | cons directory rest =>
      cases others with
      | nil => exact ⟨fun h => absurd h (hcall directory rest), fun h => absurd h (hread directory rest)⟩
      | cons other more =>
          rw [flatMap_compileBelowCall, flatMap_compileBelowCall, List.append_cancel_left_eq,
            List.append_cancel_right_eq, flatMap_readDirectories (by simp), flatMap_readDirectories (by simp),
            List.map_inj_right path_ofList_injective]
          constructor
          · intro h
            rw [h]
          · intro h
            rw [← Text.join_cutAtWord seam (Text.join seam _), h, Text.join_cutAtWord]

/-- A directory is read as itself exactly when it does not hold the seam. -/
theorem readDirectories_eq_singleton_iff :
    readDirectories directory = [spelledDirectory directory] ↔ ¬ seam <:+: directory.bareSlashed := by
  have hcut : Text.cutAtWord seam directory.bareSlashed = [directory.bareSlashed] ↔
      ¬ seam <:+: directory.bareSlashed :=
    Text.cutAtWord_eq_singleton_iff slash_notMem_seam _
  have hmap : readDirectories directory = [directory.bareSlashed].map (fun piece => ⟨String.ofList piece⟩) ↔
      Text.cutAtWord seam directory.bareSlashed = [directory.bareSlashed] :=
    List.map_inj_right path_ofList_injective
  exact hmap.trans hcut

theorem flatMap_readDirectories_eq_iff :
    directories.flatMap readDirectories = directories.flatMap (fun directory => [spelledDirectory directory]) ↔
      ∀ directory ∈ directories, ¬ seam <:+: directory.bareSlashed := by
  induction directories with
  | nil => simp
  | cons directory rest ih =>
      rw [List.forall_mem_cons, ← ih, ← readDirectories_eq_singleton_iff, List.flatMap_cons, List.flatMap_cons]
      constructor
      · intro h
        -- Each directory is read as one at least, so there is no room for the first to be read as two.
        have hrest : rest.length ≤ (rest.flatMap readDirectories).length := by
          rw [List.length_flatMap]
          have hone : ∀ count ∈ rest.map fun other => (readDirectories other).length, 1 ≤ count := by
            intro count hcount
            obtain ⟨other, -, rfl⟩ := List.mem_map.mp hcount
            exact List.length_pos_of_ne_nil (readDirectories_ne_nil other)
          simpa using List.length_le_sum_of_one_le _ hone
        have hlengths := congrArg List.length h
        have hfirst := List.length_pos_of_ne_nil (readDirectories_ne_nil directory)
        simp only [List.length_append, List.length_flatMap, List.length_singleton] at hlengths hrest
        exact List.append_inj h (by simp at hlengths ⊢; omega)
      · rintro ⟨hfirst, hrest⟩
        rw [hfirst, hrest]

end Directories

/-! ## Statements -/

/-- The first two characters of a statement tell what kind of command it is. -/
def opening : Command → List Char
  | .loadAll _ => ['l', 'o']
  | .compileAllBelow _ => ['\x7b', ' ']
  | .compileFile _ => ['c', 'o']
  | .runFile _ => ['r', 'u']
  | .refers _ _ => ['c', 'm']
  | .quitDebug => ['q', 'u']
  | .raw code => code.toList.take 2

theorem take_renderChars (command : Command) : command.renderChars.take 2 = command.opening := by
  cases command <;> rfl

theorem callOn_eq_iff {function : List Char} {file other : Path} :
    callOn function file = callOn function other ↔ spelledFile file = spelledFile other := by
  simp [callOn, quotedPath, spelledFile, String.ofList_inj]

theorem space_notMem_offsetText (offset : Nat) : ' ' ∉ offsetText offset :=
  fun h => absurd (Nat.isDigit_of_mem_toDigits (by decide) (by decide) h) (by decide)

theorem offsetText_injective : Function.Injective offsetText := by
  intro first second h
  have hread (offset : Nat) : Nat.ofDigitChars 10 (offsetText offset) 0 = offset :=
    Nat.ofDigitChars_toDigits (by decide) (by decide)
  rw [← hread first, h, hread]

theorem renderChars_refers_eq_iff {file other : Path} {offset number : Nat} :
    (refers file offset).renderChars = (refers other number).renderChars ↔
      spelledFile file = spelledFile other ∧ offset = number := by
  constructor
  · intro h
    have hend (number : Nat) : ' ' ∉ offsetText number ++ [')', ';'] := by
      simp [space_notMem_offsetText]
    -- The last space stands before the offset, whatever the path holds.
    have hspace (file : Path) (number : Nat) : (refers file number).renderChars =
        (refersStart ++ '"' :: (file.slashed ++ ['"', ','])) ++ ' ' :: (offsetText number ++ [')', ';']) := by
      simp [renderChars, quotedPath]
    rw [hspace, hspace] at h
    obtain ⟨hfile, hoffset⟩ := Text.append_cons_inj_of_notMem_right (hend offset) (hend number) h
    refine ⟨?_, offsetText_injective (List.append_cancel_right hoffset)⟩
    simpa [spelledFile, String.ofList_inj] using hfile
  · rintro ⟨hfile, rfl⟩
    have hslashed : file.slashed = other.slashed := by simpa [spelledFile, String.ofList_inj] using hfile
    simp [renderChars, quotedPath, hslashed]

/-- Two statements are the same exactly when they are read as the same command. -/
theorem render_eq_iff
    {first second : Command} (hfirst : first.isRaw = false) (hsecond : second.isRaw = false) :
    first.render = second.render ↔ first.asRead = second.asRead := by
  rw [render, render, String.ofList_inj]
  by_cases hkind : first.opening = second.opening
  · cases first <;> cases second <;> simp [opening, isRaw] at hkind hfirst hsecond
    case loadAll.loadAll file other => exact callOn_eq_iff.trans (by simp [asRead, mapPaths])
    case compileAllBelow.compileAllBelow directories others =>
      have hcalls : (compileAllBelow directories).renderChars = (compileAllBelow others).renderChars ↔
          directories.flatMap compileBelowCall = others.flatMap compileBelowCall := by
        simp [renderChars]
      exact (hcalls.trans flatMap_compileBelowCall_eq_iff).trans (by simp [asRead, mapPaths])
    case compileFile.compileFile file other => exact callOn_eq_iff.trans (by simp [asRead, mapPaths])
    case runFile.runFile file other => exact callOn_eq_iff.trans (by simp [asRead, mapPaths])
    case refers.refers file offset other number => exact renderChars_refers_eq_iff.trans (by simp [asRead, mapPaths])
    case quitDebug.quitDebug => simp
  · have hread (command : Command) : command.asRead.opening = command.opening := by cases command <;> rfl
    refine iff_of_false (fun h => hkind ?_) (fun h => hkind ?_)
    · rw [← take_renderChars, h, take_renderChars]
    · rw [← hread first, h, hread second]

/-- A command is read as it was given exactly when no directory holds the seam. -/
theorem asRead_eq_spelled_iff (command : Command) :
    command.asRead = command.spelled ↔ ∀ directory ∈ command.directories, ¬ seam <:+: directory.bareSlashed := by
  cases command with
  | compileAllBelow directories =>
      rw [asRead, spelled, mapPaths, mapPaths, compileAllBelow.injEq]
      exact flatMap_readDirectories_eq_iff
  | loadAll | compileFile | runFile | refers | quitDebug | raw => simp [asRead, spelled, mapPaths, directories]

/-! ## Lines -/

theorem newline_mem_slashed_iff (path : Path) : '\n' ∈ path.slashed ↔ '\n' ∈ path.text.toList := by
  rw [Path.slashed, List.mem_map]
  constructor
  · rintro ⟨char, hmem, hchar⟩
    split at hchar
    · exact absurd hchar (by decide)
    · exact hchar ▸ hmem
  · exact fun h => ⟨'\n', h, by decide⟩

theorem newline_mem_bareSlashed_iff (path : Path) : '\n' ∈ path.bareSlashed ↔ '\n' ∈ path.text.toList := by
  rw [← newline_mem_slashed_iff, Path.bareSlashed, List.mem_reverse]
  constructor
  · exact fun h => List.mem_reverse.mp ((List.dropWhile_sublist _).mem h)
  · intro h
    -- Only slashes are taken off the end.
    rw [← List.mem_reverse, ← List.takeWhile_append_dropWhile (p := (· = '/')) (l := path.slashed.reverse),
      List.mem_append] at h
    refine h.resolve_left fun htaken => ?_
    simpa using List.all_eq_true.mp List.all_takeWhile _ htaken

/-- The statement of a command is one line exactly when no path holds a newline. -/
theorem newline_mem_render_iff {command : Command} (hopen : command.isRaw = false) :
    '\n' ∈ command.render.toList ↔ ∃ path ∈ command.paths, '\n' ∈ path.text.toList := by
  rw [render, String.toList_ofList]
  have hcall {function : List Char} (hfunction : '\n' ∉ function) (file : Path) :
      '\n' ∈ callOn function file ↔ ∃ path ∈ [file], '\n' ∈ path.text.toList := by
    simp [callOn, quotedPath, hfunction, newline_mem_slashed_iff]
  cases command with
  | loadAll file => exact hcall (by decide) file
  | compileFile file => exact hcall (by decide) file
  | runFile file => exact hcall (by decide) file
  | compileAllBelow directories =>
      have hfixed : '\n' ∉ blockStart ∧ '\n' ∉ blockEnd ∧ '\n' ∉ compileBelowStart ∧ '\n' ∉ compileBelowEnd := by decide
      simp [renderChars, compileBelowCall, directoryText, paths, hfixed, newline_mem_bareSlashed_iff]
  | refers file offset =>
      have hfixed : '\n' ∉ refersStart := by decide
      have hoffset : '\n' ∉ offsetText offset :=
        fun h => absurd (Nat.isDigit_of_mem_toDigits (by decide) (by decide) h) (by decide)
      simp [renderChars, quotedPath, paths, hfixed, hoffset, newline_mem_slashed_iff]
  | quitDebug =>
      have hfixed : '\n' ∉ quitDebugText := by decide
      simp [renderChars, paths, hfixed]
  | raw => cases hopen

/-- **What a statement says.**  Two commands have the same statement exactly when they are read as the same command.
That is the command that was given, but for the spelling of its paths, exactly when no directory in it holds the seam
between two directories; and it is one line exactly when no path in it holds a newline. -/
theorem rendering_law
    {first second : Command} (hfirst : first.isRaw = false) (hsecond : second.isRaw = false) :
    (first.render = second.render ↔ first.asRead = second.asRead) ∧
    (first.asRead = first.spelled ↔ ∀ directory ∈ first.directories, ¬ seam <:+: directory.bareSlashed) ∧
    ('\n' ∈ first.render.toList ↔ ∃ path ∈ first.paths, '\n' ∈ path.text.toList) :=
  ⟨render_eq_iff hfirst hsecond, asRead_eq_spelled_iff first, newline_mem_render_iff hfirst⟩

namespace SeamInside

/-- A directory whose name ends the string that it stands in, and begins another. -/
def one : Command := .compileAllBelow [⟨"a/\"));compileAllBelow(CompileAllEnv(\"b"⟩]

/-- The two directories as which it is read. -/
def two : Command := .compileAllBelow [⟨"a"⟩, ⟨"b"⟩]

theorem rendering_law_seam :
    one.isRaw = false ∧ two.isRaw = false ∧ one.render = two.render :=
  ⟨rfl, rfl, (rendering_law rfl rfl).1.mpr (by decide)⟩

/-- A directory may be read as two, a path may break the line, and no directory at all is written as the root. -/
theorem statements_collide :
    (one.render = two.render ∧ one.directories.length ≠ two.directories.length) ∧
    '\n' ∈ (loadAll ⟨"a\nb"⟩).render.toList ∧
    (compileAllBelow [⟨""⟩]).render = (compileAllBelow [⟨"/"⟩]).render :=
  ⟨⟨by decide, by decide⟩, by decide, by decide⟩

end SeamInside
end Command
end CompilerRelay
