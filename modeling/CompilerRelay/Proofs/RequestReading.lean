import CompilerRelay.Proofs.ReaderProgress
import CompilerRelay.Proofs.ValueSpelling
import CompilerRelay.Request.Reader
import Mathlib.Data.List.DropRight

/-!
# Requests as values of JSON

A request is read member by member, yet what is read is told by the value of the text alone.

**Form.**  `Asks members envelope`: an object of these members is this request.  Its number stands at most once,
and all other members are the command and its fields.

**Results.**
* `Envelope.readId_eq_ok_iff`: where the number stands, a value is read.
* `Envelope.read_eq_ok_iff`: a text is a request just when it is an object of JSON whose members are.
-/

namespace CompilerRelay

section Defs

/-- The number that a value stands for; none if it stands for no number. -/
def idValue? : Json → Option (Option Nat)
  | .null => some none
  | .number (.natural id) => some (some id)
  | _ => none

/-- The number, if there is a member for it, and these members for it. -/
inductive Noted : Option (Option Nat) → List (String × Json) → Prop
  | nothing : Noted none []
  | once {value : Json} {id : Option Nat} (hvalue : idValue? value = some id) : Noted (some id) [(idKey, value)]

/-- An object of these members is this request. -/
structure Asks (members : List (String × Json)) (envelope : Envelope) : Prop where
  noted : ∃ noted, Noted noted (members.filter (·.1 == idKey)) ∧ noted.join = envelope.id
  request : Request.ofMembers (members.filter (·.1 != idKey)) = .ok envelope.request

end Defs

/-! ## What the reader of JSON adds -/

namespace Json

theorem skipBlanks_skipBlanks (text : List Char) : skipBlanks (skipBlanks text) = skipBlanks text := by
  unfold skipBlanks
  exact List.dropWhile_idempotent _ _

theorem readValue_skipBlanks (depth fuel : Nat) (text : List Char) :
    readValue depth (fuel + 1) (skipBlanks text) = readValue depth (fuel + 1) text := by
  rw [readValue, readValue, skipBlanks_skipBlanks]

/-- All numbers of steps that are enough give the same. -/
theorem readValue_eq_of_lt
    {depth fuel other : Nat} {text : List Char} (hfuel : 2 * text.length < fuel) (hother : 2 * text.length < other) :
    readValue depth fuel text = readValue depth other text := by
  obtain hle | hle := Nat.le_total fuel other
  · exact (read_steps fuel).1 hfuel hle
  · exact ((read_steps other).1 hother hle).symm

/-- An array begins with the items that were read before. -/
theorem readItems_extends
    {depth fuel : Nat} {items : List Json} {text rest : List Char} {value : Json}
    (h : readItems depth fuel items text = .ok (value, rest)) : ∃ more, value = .array (items.reverse ++ more) := by
  induction fuel generalizing items text with
  | zero => cases h
  | succ fuel ih =>
      rw [readItems] at h
      split at h
      · cases h
      · obtain ⟨rfl, -⟩ := Prod.mk.inj (Except.ok.inj h)
        exact ⟨[], by rw [List.append_nil]⟩
      · split at h
        · cases h
        · next item _ _ =>
            obtain ⟨more, rfl⟩ := ih h
            exact ⟨item :: more, by rw [List.reverse_cons, List.append_assoc, List.singleton_append]⟩

/-- An object begins with the members that were read before. -/
theorem readMembers_extends
    {depth fuel : Nat} {members : List (String × Json)} {text rest : List Char} {value : Json}
    (h : readMembers depth fuel members text = .ok (value, rest)) :
    ∃ more, value = .object (members.reverse ++ more) := by
  induction fuel generalizing members text with
  | zero => cases h
  | succ fuel ih =>
      rw [readMembers] at h
      split at h
      · cases h
      · obtain ⟨rfl, -⟩ := Prod.mk.inj (Except.ok.inj h)
        exact ⟨[], by rw [List.append_nil]⟩
      · split at h
        · cases h
        · next name _ _ =>
            split at h
            · cases h
            · split at h
              · cases h
              · next member _ _ =>
                  obtain ⟨more, rfl⟩ := ih h
                  exact ⟨(name, member) :: more, by
                    rw [List.reverse_cons, List.append_assoc, List.singleton_append]⟩

theorem readMembers_extends_cons
    {depth fuel : Nat} {member : String × Json} {read members : List (String × Json)} {text rest : List Char}
    (h : readMembers depth fuel (member :: read) text = .ok (.object members, rest)) :
    ∃ more, members = read.reverse ++ member :: more := by
  obtain ⟨more, hsame⟩ := readMembers_extends h
  exact ⟨more, by simpa using hsame⟩

/-- Where both readings fail, neither succeeds. -/
theorem failed_iff
    {ε α β γ : Type} {fault other : ε} {value : α} {whole : γ → β} {holds : γ → Prop} :
    (.error fault : Except ε α) = .ok value ↔ ∃ part, (.error other : Except ε β) = .ok (whole part) ∧ holds part := by
  simp

/-- Nothing but blanks may follow what is read of the whole of a text. -/
theorem readRest_eq_ok_iff {α : Type} (found : Read α) (value : α) :
    (do
      let (value, rest) ← found
      match skipBlanks rest with
      | [] => return value
      | rest => faultBefore .trailingCharacters rest : Except Fault α) = .ok value ↔
    ∃ rest, found = .ok (value, rest) ∧ skipBlanks rest = [] := by
  cases found with
  | error fault => exact Json.failed_iff
  | ok parsed =>
      obtain ⟨other, rest⟩ := parsed
      simp only [bind, Except.bind]
      constructor
      · intro h
        split at h
        · next hend =>
            obtain rfl := Except.ok.inj h
            exact ⟨rest, rfl, hend⟩
        · cases h
      · rintro ⟨left, hread, hend⟩
        obtain ⟨rfl, rfl⟩ := Prod.mk.inj (Except.ok.inj hread)
        rw [hend]
        rfl

theorem read_eq_ok_iff (text : String) (value : Json) :
    read text = .ok value ↔
      ∃ rest, readValue depthLimit (readSteps text.toList) text.toList = .ok (value, rest) ∧ skipBlanks rest = [] :=
  readRest_eq_ok_iff _ _

theorem eq_of_map_eq_ok
    {α : Type} {make : α → Json} {read : Read α} {value : Json} {rest : List Char}
    (h : (read.map fun (part, rest) => (make part, rest)) = .ok (value, rest)) : ∃ part, value = make part := by
  cases read with
  | error fault => cases h
  | ok read => exact ⟨read.1, (Prod.mk.inj (Except.ok.inj h)).1.symm⟩

theorem eq_of_word_eq_ok
    {read : Except Fault (List Char)} {word value : Json} {rest : List Char}
    (h : read.map (word, ·) = .ok (value, rest)) : value = word := by
  cases read with
  | error fault => cases h
  | ok read => exact (Prod.mk.inj (Except.ok.inj h)).1.symm

/-- The kinds of values, by the characters with which they begin. -/
inductive Begins : Json → List Char → Prop
  | null {rest : List Char} : Begins .null ('n' :: rest)
  | true {rest : List Char} : Begins (.bool true) ('t' :: rest)
  | false {rest : List Char} : Begins (.bool false) ('f' :: rest)
  | string {value : String} {rest : List Char} : Begins (.string value) ('"' :: rest)
  | minus {number : JsonNumber} {rest : List Char} : Begins (.number number) ('-' :: rest)
  | digit {number : JsonNumber} {char : Char} {rest : List Char} (h : char.isDigit = true) :
      Begins (.number number) (char :: rest)
  | array {items : List Json} {rest : List Char} : Begins (.array items) ('[' :: rest)
  | object {members : List (String × Json)} {rest : List Char} : Begins (.object members) ('\x7b' :: rest)

/-- What is read is of the kind that its first character tells. -/
theorem begins_of_readValue
    {depth fuel : Nat} {text rest : List Char} {value : Json} (h : readValue depth fuel text = .ok (value, rest)) :
    Begins value (skipBlanks text) := by
  cases fuel with
  | zero => cases h
  | succ fuel =>
      rw [readValue] at h
      split at h
      case h_1 => cases h
      all_goals
        rename_i htext
        rw [htext]
      · obtain rfl := eq_of_word_eq_ok h
        exact .null
      · obtain rfl := eq_of_word_eq_ok h
        exact .true
      · obtain rfl := eq_of_word_eq_ok h
        exact .false
      · obtain ⟨part, rfl⟩ := eq_of_map_eq_ok h
        exact .string
      · obtain ⟨part, rfl⟩ := eq_of_map_eq_ok h
        exact .minus
      · split at h
        · cases h
        · obtain ⟨more, rfl⟩ := readItems_extends h
          exact .array
      · split at h
        · cases h
        · obtain ⟨more, rfl⟩ := readMembers_extends h
          exact .object
      · split at h
        · next hdigit =>
            obtain ⟨part, rfl⟩ := eq_of_map_eq_ok h
            exact .digit hdigit
        · cases h

/-- An object begins with a brace. -/
theorem skipBlanks_of_object {text : String} {members : List (String × Json)} (h : read text = .ok (.object members)) :
    ∃ more, skipBlanks text.toList = '\x7b' :: more := by
  obtain ⟨rest, hread, -⟩ := (read_eq_ok_iff text _).mp h
  have hbegins := begins_of_readValue hread
  generalize skipBlanks text.toList = start at hbegins
  cases hbegins with
  | object => exact ⟨_, rfl⟩

end Json

/-! ## What was read so far -/

theorem Noted.unique
    {noted other : Option (Option Nat)} {members : List (String × Json)} (h : Noted noted members)
    (hother : Noted other members) : noted = other := by
  cases h with
  | nothing =>
      cases hother with
      | nothing => rfl
  | once hvalue =>
      cases hother with
      | once hother => rw [← hvalue, hother]

theorem Noted.eq_nil {members : List (String × Json)} (h : Noted none members) : members = [] := by
  cases h with
  | nothing => rfl

/-- The number stands once at most. -/
theorem not_noted_of_twice
    {noted : Option (Option Nat)} {first second : String × Json} {rest : List (String × Json)} :
    ¬Noted noted (first :: second :: rest) := by
  intro h
  cases h

/-- What is noted of the number, and the other members, of all that were read. -/
structure Gathers (noted : Option (Option Nat)) (others read : List (String × Json)) : Prop where
  noted : Noted noted (read.reverse.filter (·.1 == idKey))
  others_eq : others.reverse = read.reverse.filter (·.1 != idKey)

namespace Gathers

variable {noted : Option (Option Nat)} {others read : List (String × Json)}

theorem nil : Gathers none [] [] := ⟨.nothing, rfl⟩

theorem other (h : Gathers noted others read) {name : String} (hname : (name == idKey) = false) (value : Json) :
    Gathers noted ((name, value) :: others) ((name, value) :: read) where
  noted := by simpa [hname] using h.noted
  others_eq := by simp [h.others_eq, bne, hname]

theorem once (h : Gathers none others read) {value : Json} {id : Option Nat} (hvalue : idValue? value = some id) :
    Gathers (some id) others ((idKey, value) :: read) where
  noted := by
    rw [List.reverse_cons, List.filter_append, h.noted.eq_nil]
    exact .once hvalue
  others_eq := by simp [h.others_eq, bne]

theorem asks_iff (h : Gathers noted others read) (envelope : Envelope) :
    Asks read.reverse envelope ↔
      Request.ofMembers others.reverse = .ok envelope.request ∧ noted.join = envelope.id := by
  constructor
  · rintro ⟨⟨other, hother, hid⟩, hrequest⟩
    rw [h.others_eq, h.noted.unique hother]
    exact ⟨hrequest, hid⟩
  · rintro ⟨hrequest, hid⟩
    exact ⟨⟨noted, h.noted, hid⟩, h.others_eq ▸ hrequest⟩

/-- Once there was a number, there is no other. -/
theorem not_asks_of_twice
    {id : Option Nat} (h : Gathers (some id) others read) (value : Json) (more : List (String × Json))
    (envelope : Envelope) : ¬Asks (read.reverse ++ (idKey, value) :: more) envelope := by
  rintro ⟨⟨other, hother, -⟩, -⟩
  have hnoted := h.noted
  rw [List.filter_append] at hother
  generalize read.reverse.filter (·.1 == idKey) = ids at hnoted hother
  cases hnoted with
  | once => exact not_noted_of_twice hother

/-- A value that stands for no number is not that of the number. -/
theorem not_asks_of_value
    (h : Gathers none others read) {value : Json} (hvalue : idValue? value = none) (more : List (String × Json))
    (envelope : Envelope) : ¬Asks (read.reverse ++ (idKey, value) :: more) envelope := by
  rintro ⟨⟨other, hother, -⟩, -⟩
  rw [List.filter_append, h.noted.eq_nil, List.nil_append, List.filter_cons_of_pos (by simp)] at hother
  generalize more.filter (·.1 == idKey) = ids at hother
  cases hother with
  | once hother => cases hvalue.symm.trans hother

end Gathers

namespace Envelope

open Json (Fault Read faultAt faultBefore skipBlanks readWord readString readNumber readColon readValue nextKey)

/-! ## The number -/

theorem naturalOf_eq_ok_iff (number : JsonNumber) (id : Nat) :
    Fields.naturalOf "u64" (.number number) = .ok id ↔ idValue? (.number number) = some (some id) := by
  cases number <;> simp [Fields.naturalOf, idValue?]

theorem idValue?_number_ne_none (number : JsonNumber) : idValue? (.number number) ≠ some none := by
  cases number <;> simp [idValue?]

/-- No value of the wrong type is a request. -/
theorem wrongValue_ne_ok {α : Type} (expected : String) (text : List Char) (read : α) :
    (wrongValue expected text : Except Fault α) ≠ .ok read := by
  intro h
  unfold wrongValue at h
  split at h
  · cases h
  · cases h
  · cases hread : readValue 0 1 text <;> simp [hread, dataFault, faultAt, bind, Except.bind] at h

theorem readNumberOf_eq_ok_iff (negative : Bool) (text : List Char) (id : Option Nat) (rest : List Char) :
    (do
      let (number, rest) ← readNumber negative text
      match Fields.naturalOf "u64" (.number number) with
      | .ok id => return (some id, rest)
      | .error fault => dataFault fault rest : Except Fault (Option Nat × List Char)) = .ok (id, rest) ↔
    ∃ value, (readNumber negative text).map (fun (number, rest) => (Json.number number, rest)) = .ok (value, rest) ∧
      idValue? value = some id := by
  cases readNumber negative text with
  | error fault => exact Json.failed_iff
  | ok read =>
      obtain ⟨number, left⟩ := read
      simp only [bind, Except.bind]
      constructor
      · intro h
        split at h
        · next found hfound =>
            obtain ⟨rfl, rfl⟩ := Prod.mk.inj (Except.ok.inj h)
            exact ⟨_, rfl, (naturalOf_eq_ok_iff number found).mp hfound⟩
        · cases h
      · rintro ⟨value, hread, hvalue⟩
        obtain ⟨rfl, rfl⟩ := Prod.mk.inj (Except.ok.inj hread)
        cases id with
        | none => exact absurd hvalue (idValue?_number_ne_none number)
        | some found => simp only [(naturalOf_eq_ok_iff number found).mpr hvalue, pure, Except.pure]

/-- Where the number of a request stands, a value is read that is null or a natural number. -/
theorem readId_eq_ok_iff
    (depth : Nat) {fuel : Nat} (hfuel : 0 < fuel) (text : List Char) (id : Option Nat) (rest : List Char) :
    readId text = .ok (id, rest) ↔
      ∃ value, readValue depth fuel text = .ok (value, rest) ∧ idValue? value = some id := by
  obtain ⟨fuel, rfl⟩ : ∃ less, fuel = less + 1 := ⟨fuel - 1, by omega⟩
  have hagain := Json.skipBlanks_skipBlanks text
  rw [← Json.readValue_skipBlanks, readId]
  split
  · next htext =>
      rw [htext, readValue, Json.skipBlanks_nil]
      exact Json.failed_iff
  · next more htext =>
      have hskip : skipBlanks ('n' :: more) = 'n' :: more := rfl
      rw [htext, readValue, hskip]
      simp only
      cases readWord ['u', 'l', 'l'] more with
      | error fault => exact Json.failed_iff
      | ok left =>
          constructor
          · intro h
            obtain ⟨rfl, rfl⟩ := Prod.mk.inj (Except.ok.inj h)
            exact ⟨.null, rfl, rfl⟩
          · rintro ⟨value, hread, hvalue⟩
            obtain ⟨rfl, rfl⟩ := Prod.mk.inj (Except.ok.inj hread)
            obtain rfl := Option.some.inj hvalue
            rfl
  · next char more hnull htext =>
      rw [htext] at hagain ⊢
      by_cases hminus : char = '-'
      · subst hminus
        rw [readValue, hagain]
        simp only [true_or, if_true]
        exact readNumberOf_eq_ok_iff true more id rest
      · by_cases hdigit : char.isDigit = true
        · rw [Json.readValue_digit hdigit]
          simp only [hminus, hdigit, or_true, if_true, if_false]
          exact readNumberOf_eq_ok_iff false (char :: more) id rest
        · rw [if_neg (by simp [hminus, hdigit])]
          refine iff_of_false (wrongValue_ne_ok _ _ _) ?_
          rintro ⟨value, hread, hvalue⟩
          have hbegins := Json.begins_of_readValue hread
          rw [hagain] at hbegins
          cases hbegins with
          | null => exact hnull rfl
          | minus => exact hminus rfl
          | digit h => exact hdigit h
          | true => cases hvalue
          | false => cases hvalue
          | string => cases hvalue
          | array => cases hvalue
          | object => cases hvalue

theorem exists_error_of_readId
    (depth : Nat) {fuel : Nat} (hfuel : 0 < fuel) {text : List Char}
    (h : ∀ value rest, readValue depth fuel text = .ok (value, rest) → idValue? value = none) :
    ∃ fault, readId text = .error fault := by
  cases hread : readId text with
  | error fault => exact ⟨fault, rfl⟩
  | ok read =>
      obtain ⟨value, hvalue, hid⟩ := (readId_eq_ok_iff depth hfuel text read.1 read.2).mp hread
      cases hid.symm.trans (h value read.2 hvalue)

/-! ## The members -/

section Members

variable {noted : Option (Option Nat)} {others read : List (String × Json)}

/-- At the end of the object, the request is that of its members. -/
theorem readEnd_eq_ok_iff
    (h : Gathers noted others read) (envelope : Envelope) (left rest : List Char) :
    (match Request.ofMembers others.reverse with
      | .ok request => .ok (⟨noted.join, request⟩, left)
      | .error fault => dataFault fault left : Except Fault (Envelope × List Char)) = .ok (envelope, rest) ↔
    ∃ members, (.ok (.object read.reverse, left) : Read Json) = .ok (.object members, rest) ∧
      Asks members envelope := by
  constructor
  · intro hread
    split at hread
    · next request hrequest =>
        obtain ⟨rfl, rfl⟩ := Prod.mk.inj (Except.ok.inj hread)
        exact ⟨_, rfl, (h.asks_iff _).mpr ⟨hrequest, rfl⟩⟩
    · cases hread
  · rintro ⟨members, hread, hasks⟩
    obtain ⟨hsame, rfl⟩ := Prod.mk.inj (Except.ok.inj hread)
    obtain rfl := Json.object.inj hsame
    obtain ⟨hrequest, hid⟩ := (h.asks_iff envelope).mp hasks
    rw [hrequest, hid]

/-- With a first number, what is asked for is told by what follows it. -/
theorem readNumbered_eq_ok_iff
    (envelope : Envelope) (rest : List Char) {fuel steps : Nat} {text : List Char} (h : Gathers none others read)
    (hsteps : 0 < steps)
    (hnext : ∀ {value id beyond}, readValue (Json.depthLimit - 1) steps text = .ok (value, beyond) →
      idValue? value = some id →
      (readMembers fuel false (some id) others beyond = .ok (envelope, rest) ↔
        ∃ members, Json.readMembers (Json.depthLimit - 1) steps ((idKey, value) :: read) beyond =
            .ok (.object members, rest) ∧ Asks members envelope)) :
    (match readId text with
      | .error fault => .error fault
      | .ok (id, rest) => readMembers fuel false (some id) others rest : Except Fault (Envelope × List Char)) =
        .ok (envelope, rest) ↔
    ∃ members, (match readValue (Json.depthLimit - 1) steps text with
        | .error fault => .error fault
        | .ok (value, rest) =>
            Json.readMembers (Json.depthLimit - 1) steps ((idKey, value) :: read) rest : Read Json) =
          .ok (.object members, rest) ∧ Asks members envelope := by
  cases hread : readValue (Json.depthLimit - 1) steps text with
  | error fault =>
      obtain ⟨fault, hfault⟩ := exists_error_of_readId (Json.depthLimit - 1) hsteps fun value beyond hvalue => by
        cases hread.symm.trans hvalue
      rw [hfault]
      simp
  | ok parsed =>
      obtain ⟨value, beyond⟩ := parsed
      cases hvalue : idValue? value with
      | none =>
          obtain ⟨fault, hfault⟩ := exists_error_of_readId (Json.depthLimit - 1) hsteps fun other left hother => by
            obtain ⟨rfl, -⟩ := Prod.mk.inj (Except.ok.inj (hread.symm.trans hother))
            exact hvalue
          rw [hfault]
          refine iff_of_false (by simp) ?_
          rintro ⟨members, hmore, hasks⟩
          obtain ⟨more, rfl⟩ := Json.readMembers_extends_cons hmore
          exact h.not_asks_of_value hvalue more envelope hasks
      | some id =>
          rw [(readId_eq_ok_iff (Json.depthLimit - 1) hsteps text id beyond).mpr ⟨value, hread, hvalue⟩]
          exact hnext hread hvalue

/-- What has a second number is no request, whatever follows. -/
theorem not_asks_of_readAgain
    {id : Option Nat} {steps : Nat} {text rest : List Char} {members : List (String × Json)}
    (h : Gathers (some id) others read)
    (hread : (match readColon text with
      | .error fault => .error fault
      | .ok rest =>
          match readValue (Json.depthLimit - 1) steps rest with
          | .error fault => .error fault
          | .ok (value, rest) =>
              Json.readMembers (Json.depthLimit - 1) steps ((idKey, value) :: read) rest : Read Json) =
        .ok (.object members, rest)) (envelope : Envelope) : ¬Asks members envelope := by
  split at hread
  · cases hread
  · split at hread
    · cases hread
    · obtain ⟨more, rfl⟩ := Json.readMembers_extends_cons hread
      exact h.not_asks_of_twice _ more envelope

/-- The reader of requests stops where the reader of JSON does, with the request that the members are. -/
theorem readMembers_eq_ok_iff
    (envelope : Envelope) (rest : List Char) (fuel : Nat) {steps : Nat} {text : List Char}
    (h : Gathers noted others read) (hfuel : text.length < fuel) (hsteps : 2 * text.length + 1 < steps) :
    readMembers fuel read.isEmpty noted others text = .ok (envelope, rest) ↔
      ∃ members, Json.readMembers (Json.depthLimit - 1) steps read text = .ok (.object members, rest) ∧
        Asks members envelope := by
  induction fuel generalizing steps noted others read text with
  | zero => exact absurd hfuel (Nat.not_lt_zero _)
  | succ fuel ih =>
      obtain ⟨steps, rfl⟩ : ∃ less, steps = less + 1 := ⟨steps - 1, by omega⟩
      rw [readMembers, Json.readMembers]
      cases hnext : nextKey read.isEmpty text with
      | error fault => exact Json.failed_iff
      | ok next =>
          obtain ⟨another, left⟩ := next
          have hleft := Json.length_nextKey_le hnext
          cases another with
          | false =>
              exact readEnd_eq_ok_iff h envelope (left.drop 1) rest
          | true =>
              cases hname : readString left with
              | error fault =>
                  simp [hname]
              | ok named =>
                  obtain ⟨name, behind⟩ := named
                  have hbehind := Json.length_readString_lt hname
                  simp only [hname]
                  by_cases htwice : (name == idKey && noted.isSome) = true
                  · obtain ⟨hid, hsome⟩ := Bool.and_eq_true_iff.mp htwice
                    obtain rfl := eq_of_beq hid
                    obtain ⟨id, rfl⟩ := Option.isSome_iff_exists.mp hsome
                    rw [if_pos htwice]
                    refine iff_of_false (by simp [dataFault, faultAt]) ?_
                    rintro ⟨members, hread, hasks⟩
                    exact not_asks_of_readAgain h hread envelope hasks
                  · rw [if_neg htwice]
                    cases hcolon : readColon behind with
                    | error fault => simp
                    | ok after =>
                        have hafter := Json.length_readColon_lt hcolon
                        simp only
                        by_cases hid : (name == idKey) = true
                        · obtain rfl := eq_of_beq hid
                          obtain rfl : noted = none := by simpa using htwice
                          rw [if_pos hid]
                          exact readNumbered_eq_ok_iff envelope rest h (by omega) fun hread hvalue =>
                            have hlt := (Json.length_read_lt steps).1 hread
                            ih (h.once hvalue) (by omega) (by omega)
                        · rw [if_neg hid]
                          have hsame : readValue (Json.depthLimit - 1) (Json.readSteps after) after =
                              readValue (Json.depthLimit - 1) steps after :=
                            Json.readValue_eq_of_lt (by unfold Json.readSteps; omega) (by omega)
                          rw [hsame]
                          cases hread : readValue (Json.depthLimit - 1) steps after with
                          | error fault => simp
                          | ok parsed =>
                              obtain ⟨value, beyond⟩ := parsed
                              have hbeyond := (Json.length_read_lt steps).1 hread
                              exact ih (h.other (by simpa using hid) value) (by omega) (by omega)

end Members

/-- A text is a request just when it is an object of JSON whose members are. -/
theorem read_eq_ok_iff (text : String) (envelope : Envelope) :
    read text = .ok envelope ↔ ∃ members, Json.read text = .ok (.object members) ∧ Asks members envelope := by
  unfold read
  split
  · next htext =>
      refine iff_of_false (by simp [faultBefore]) ?_
      rintro ⟨members, hread, -⟩
      obtain ⟨more, hmore⟩ := Json.skipBlanks_of_object hread
      cases htext.symm.trans hmore
  · next more htext =>
      have hlength := Json.length_skipBlanks_le text.toList
      rw [htext, List.length_cons, String.length_toList] at hlength
      have hobject : readValue Json.depthLimit (Json.readSteps text.toList) text.toList =
          Json.readMembers (Json.depthLimit - 1) (2 * text.length + 1) [] more := by
        rw [Json.readSteps, String.length_toList, readValue, htext]
        rfl
      have hiff (rest : List Char) := readMembers_eq_ok_iff envelope rest (text.length + 1) Gathers.nil
        (show more.length < text.length + 1 by omega)
        (show 2 * more.length + 1 < 2 * text.length + 1 by omega)
      refine (Json.readRest_eq_ok_iff _ envelope).trans ?_
      simp only [Json.read_eq_ok_iff, hobject]
      constructor
      · rintro ⟨rest, hread, hend⟩
        obtain ⟨members, hmembers, hasks⟩ := (hiff rest).mp hread
        exact ⟨members, ⟨rest, hmembers, hend⟩, hasks⟩
      · rintro ⟨members, ⟨rest, hmembers, hend⟩, hasks⟩
        exact ⟨rest, (hiff rest).mpr ⟨members, hmembers, hasks⟩, hend⟩
  · next start _ hstart =>
      refine iff_of_false (wrongValue_ne_ok _ _ _) ?_
      rintro ⟨members, hread, -⟩
      obtain ⟨more, hmore⟩ := Json.skipBlanks_of_object hread
      exact hstart more hmore

end Envelope
end CompilerRelay
