import CompilerRelay.Proofs.RequestMembers

/-!
# Texts that are no requests

What may be wrong with a text that is no request, apart from how it is read.

**Form.**  `Amiss members`: an object of these members is no request.  `Faulty text`: the text is not JSON, or no
object, or one whose members are amiss.

**Results.**
* `amiss_iff`: either the members of an object are amiss, or they tell a request.
* `Envelope.exists_error_iff`: just the texts that are faulty are no requests.
-/

namespace CompilerRelay

section Defs

/-- The only value under the name of the command is this one. -/
def Commands (members : List (String × Json)) (command : CommandName) : Prop :=
  ∃ value, valuesOf members commandKey = [value] ∧ CommandName.ofJson value = .ok command

/-- What may be wrong with the members of an object. -/
inductive Amiss (members : List (String × Json)) : Prop
  | noCommand (h : valuesOf members commandKey = [])
  | unknownCommand {value : Json} (hmem : value ∈ valuesOf members commandKey)
      (h : ∀ command, CommandName.ofJson value ≠ .ok command)
  | twoCommands (h : 1 < (valuesOf members commandKey).length)
  | wrongId {value : Json} (hmem : value ∈ valuesOf members idKey) (h : idValue? value = none)
  | twoIds (h : 1 < (valuesOf members idKey).length)
  | noField {command : CommandName} (hcommand : Commands members command) {name : FieldName}
      (hname : name ∈ command.fields) (hneeded : name.isOptional = false) (h : valuesOf members name.text = [])
  | wrongField {command : CommandName} (hcommand : Commands members command) {name : FieldName}
      (hname : name ∈ command.fields) {value : Json} (hmem : value ∈ valuesOf members name.text) (h : ¬name.Fits value)
  | twoFields {command : CommandName} (hcommand : Commands members command) {name : FieldName}
      (hname : name ∈ command.fields) (h : 1 < (valuesOf members name.text).length)

/-- What may be wrong with a text. -/
inductive Faulty (text : String) : Prop
  | notJson {fault : Json.Fault} (h : Json.read text = .error fault)
  | notObject {value : Json} (h : Json.read text = .ok value) (hobject : ∀ members, value ≠ .object members)
  | amiss {members : List (String × Json)} (h : Json.read text = .ok (.object members)) (hamiss : Amiss members)

end Defs

section Members

variable {members : List (String × Json)}

theorem cases_values {values : List Json} (h : ¬1 < values.length) : values = [] ∨ ∃ value, values = [value] := by
  match values with
  | [] => exact Or.inl rfl
  | [value] => exact Or.inr ⟨value, rfl⟩
  | _ :: _ :: _ => exact absurd (by simp) h

/-- What stands under a name of a request stands there once. -/
theorem Given.length_le {key : String} {value : Json} (h : Given members key value) :
    (valuesOf members key).length ≤ 1 := by
  obtain h | ⟨h, -⟩ := h <;> simp [h]

theorem Given.eq_of_mem {key : String} {value other : Json} (h : Given members key value)
    (hmem : other ∈ valuesOf members key) : other = value := by
  obtain h | ⟨h, -⟩ := h
  · rwa [h, List.mem_singleton] at hmem
  · rw [h] at hmem
    cases hmem

theorem Told.commands {envelope : Envelope} (h : Told members envelope) {command : CommandName}
    (hcommand : Commands members command) : command = envelope.request.command := by
  obtain ⟨value, hvalue, hok⟩ := h.command
  obtain ⟨other, hother, hsame⟩ := hcommand
  obtain rfl : value = other := by simpa [hvalue] using hother
  exact Except.ok.inj (hsame.symm.trans hok)

theorem Told.field {envelope : Envelope} (h : Told members envelope) {command : CommandName}
    (hcommand : Commands members command) {name : FieldName} (hname : name ∈ command.fields) :
    ∃ value, (name, value) ∈ envelope.request.fields ∧ Given members name.text value := by
  rw [h.commands hcommand, ← Request.map_fst_fields] at hname
  obtain ⟨member, hmem, rfl⟩ := List.mem_map.mp hname
  exact ⟨member.2, hmem, h.fields member hmem⟩

/-- What is amiss tells no request. -/
theorem Amiss.not_told (h : Amiss members) (envelope : Envelope) : ¬Told members envelope := by
  intro htold
  obtain ⟨command, hcommand, hok⟩ := htold.command
  cases h with
  | noCommand h => simp [hcommand] at h
  | unknownCommand hmem h =>
      rw [hcommand, List.mem_singleton] at hmem
      exact h _ (hmem ▸ hok)
  | twoCommands h => simp [hcommand] at h
  | wrongId hmem h =>
      rw [htold.id.eq_of_mem hmem, (idValue?_eq_some_iff _ envelope.id).mpr rfl] at h
      cases h
  | twoIds h => exact absurd htold.id.length_le (Nat.not_le.mpr h)
  | noField hcommand hname hneeded h =>
      obtain ⟨value, -, hgiven⟩ := htold.field hcommand hname
      obtain hgiven | ⟨-, hdefault⟩ := hgiven
      · simp [h] at hgiven
      · exact notMem_default_of_needed hneeded value hdefault
  | wrongField hcommand hname hmem h =>
      obtain ⟨value, hfield, hgiven⟩ := htold.field hcommand hname
      rw [hgiven.eq_of_mem hmem] at h
      exact h (fits_of_mem_fields hfield)
  | twoFields hcommand hname h =>
      obtain ⟨value, -, hgiven⟩ := htold.field hcommand hname
      exact absurd hgiven.length_le (Nat.not_le.mpr h)

/-- A request is made of the fields of a command, if none that is needed is missing. -/
theorem exists_request
    {fields : Fields} {command : CommandName}
    (h : ∀ name ∈ command.fields, name.isOptional = false → fields.holds name = true) :
    ∃ request, fields.request command = .ok request := by
  cases command
  case compileFile | compileWorkspace | compileFolders | runCurrentFile | loadAllKnown | run | runIfStarted |
      outputFile =>
    obtain ⟨value, hvalue⟩ := Option.isSome_iff_exists.mp (h _ List.mem_cons_self rfl)
    exact ⟨_, Fields.map_eq_ok_iff.mpr ⟨value, (Fields.need_eq_ok_iff _).mpr hvalue, rfl⟩⟩
  case runStatement =>
    obtain ⟨code, hcode⟩ := Option.isSome_iff_exists.mp (h .code (by decide) rfl)
    obtain ⟨success, hsuccess⟩ := Option.isSome_iff_exists.mp (h .success (by decide) rfl)
    exact ⟨_, (Fields.runStatement_eq_ok_iff fields ⟨code, success, _, _, _⟩).mpr ⟨hcode, hsuccess, rfl, rfl, rfl⟩⟩
  case goto =>
    obtain ⟨file, hfile⟩ := Option.isSome_iff_exists.mp (h .file (by decide) rfl)
    obtain ⟨offset, hoffset⟩ := Option.isSome_iff_exists.mp (h .offset (by decide) rfl)
    exact ⟨_, (Fields.goto_eq_ok_iff fields file offset).mpr ⟨hfile, hoffset⟩⟩
  all_goals exact ⟨_, rfl⟩

theorem exists_command (h : ¬Amiss members) : ∃ command, Commands members command := by
  obtain hnone | ⟨value, hone⟩ := cases_values fun htwo => h (.twoCommands htwo)
  · exact absurd (.noCommand hnone) h
  · cases hvalue : CommandName.ofJson value with
    | ok command => exact ⟨command, value, hone, hvalue⟩
    | error fault =>
        exact absurd (.unknownCommand (by rw [hone, List.mem_singleton]) fun command => by simp [hvalue]) h

theorem exists_id (h : ¬Amiss members) : ∃ id : Option Nat, Given members idKey (id.elim .null .nat) := by
  obtain hnone | ⟨value, hone⟩ := cases_values fun htwo => h (.twoIds htwo)
  · exact ⟨none, Or.inr ⟨hnone, by simp [defaultMembers]⟩⟩
  · cases hvalue : idValue? value with
    | none => exact absurd (.wrongId (by rw [hone, List.mem_singleton]) hvalue) h
    | some id => exact ⟨id, Or.inl (by rw [hone, (idValue?_eq_some_iff value id).mp hvalue])⟩

theorem exists_fields_of_not_amiss
    (h : ¬Amiss members) {command : CommandName} (hcommand : Commands members command) :
    ∃ fields, Fields.ofMembers command members = .ok fields ∧
      ∀ name ∈ command.fields, name.isOptional = false → fields.holds name = true := by
  obtain ⟨fields, hfields⟩ : ∃ fields, Fields.ofMembers command members = .ok fields := by
    refine exists_fields_of_fits fun name hname => ?_
    obtain hnone | ⟨value, hone⟩ := cases_values fun htwo => h (.twoFields hcommand hname htwo)
    · exact Or.inl hnone
    · refine Or.inr ⟨value, hone, ?_⟩
      by_contra hfits
      exact h (.wrongField hcommand hname (by rw [hone, List.mem_singleton]) hfits)
  refine ⟨fields, hfields, fun name hname hneeded => ?_⟩
  have hfound := (Fields.ofMembers_eq_ok_iff command members fields).mp hfields name
  rw [Fields.found, if_pos hname] at hfound
  rw [Fields.holds_eq, Option.isSome_iff_ne_none]
  intro hnone
  rw [hnone] at hfound
  exact h (.noField hcommand hname hneeded hfound.symm)

/-- Where nothing is amiss, a request is told. -/
theorem exists_told (h : ¬Amiss members) : ∃ envelope, Told members envelope := by
  obtain ⟨command, hcommand⟩ := exists_command h
  obtain ⟨id, hid⟩ := exists_id h
  obtain ⟨fields, hfields, hholds⟩ := exists_fields_of_not_amiss h hcommand
  obtain ⟨request, hrequest⟩ := exists_request hholds
  obtain rfl := Fields.command_of_request hrequest
  refine ⟨⟨id, request⟩, hcommand, hid, fun member hmem => ?_⟩
  have hname : member.1 ∈ request.command.fields := by
    rw [← Request.map_fst_fields]
    exact List.mem_map_of_mem hmem
  rw [← stands_iff_given hfields hname]
  exact (Fields.request_eq_ok_iff fields request).mp hrequest member hmem

/-- Either the members of an object are amiss, or they tell a request. -/
theorem amiss_iff (members : List (String × Json)) : Amiss members ↔ ∀ envelope, ¬Told members envelope := by
  refine ⟨Amiss.not_told, fun h => ?_⟩
  by_contra hnot
  obtain ⟨envelope, htold⟩ := exists_told hnot
  exact h envelope htold

end Members

/-- Just the texts that are faulty are no requests. -/
theorem Envelope.exists_error_iff (text : String) : (∃ fault, read text = .error fault) ↔ Faulty text := by
  have hnone : (∃ fault, read text = .error fault) ↔ ∀ envelope, read text ≠ .ok envelope := by
    cases read text <;> simp
  simp only [hnone, ne_eq, read_eq_ok_iff_told, not_exists, not_and]
  constructor
  · intro h
    cases hread : Json.read text with
    | error fault => exact .notJson hread
    | ok value =>
        by_cases hobject : ∃ members, value = .object members
        · obtain ⟨members, rfl⟩ := hobject
          exact .amiss hread ((amiss_iff members).mpr fun envelope => h envelope members hread)
        · exact .notObject hread (not_exists.mp hobject)
  · rintro hfaulty envelope members hread htold
    cases hfaulty with
    | notJson h => cases hread.symm.trans h
    | notObject h hobject => exact hobject members (Except.ok.inj (h.symm.trans hread))
    | amiss h hamiss =>
        obtain rfl := Json.object.inj (Except.ok.inj (h.symm.trans hread))
        exact hamiss.not_told envelope htold

end CompilerRelay
