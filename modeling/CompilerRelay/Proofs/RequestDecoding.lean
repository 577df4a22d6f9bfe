import CompilerRelay.Proofs.RequestMembers

/-!
# Requests that are sent

What an editor sends for a request is read as this request.

**Form.**  `Envelope.SentBy shown extras members`: the object has these members, in any order; what it shows of the
request are all members that are no defaults, and what it has besides stands under other names.

**Results.**  `Envelope.decoding_law`: however it is written, the text of such an object is read as the request.
-/

namespace CompilerRelay

section Defs

/-- All members of the object that a request is sent as. -/
def Envelope.members (envelope : Envelope) : List (String × Json) :=
  (idKey, envelope.id.elim .null .nat) :: envelope.request.members

/-- A string or a number. -/
def IsPlain : Json → Prop
  | .string _ | .number _ => True
  | _ => False

/-- An object of these members is sent for a request: some of its own members, and others, in any order. -/
structure Envelope.SentBy (envelope : Envelope) (shown extras members : List (String × Json)) : Prop where
  perm : members.Perm (shown ++ extras)
  sublist : shown.Sublist envelope.members
  /-- What is left out is a default. -/
  mem_default : ∀ member ∈ envelope.members, member ∉ shown → member ∈ defaultMembers
  apart : ∀ member ∈ extras, member.1 ∉ envelope.members.map Prod.fst
  plain : ∀ member ∈ extras, IsPlain member.2

end Defs

/-! ## Requests that are sent -/

namespace Envelope

theorem nodup_names (envelope : Envelope) : (envelope.members.map Prod.fst).Nodup := by
  have hnames : envelope.members.map Prod.fst =
      idKey :: commandKey :: envelope.request.command.fields.map (·.text) := by
    rw [← Request.map_fst_fields]
    simp [Envelope.members, Request.members, commandKey, Function.comp_def]
  rw [hnames]
  cases envelope.request.command <;> decide

theorem depth_le_one_of_mem_fields {request : Request} {member : FieldName × Json} (h : member ∈ request.fields) :
    member.2.depth ≤ 1 := by
  have hpaths (paths : List Path) : Json.depthItems (paths.map Request.pathValue) = 0 :=
    Nat.le_zero.mp (Json.depthItems_le_iff.mpr (by simp [Request.pathValue, Json.depth]))
  revert member
  cases request with
  | runStatement statement =>
      obtain ⟨code, success, failure, start, keepOutput⟩ := statement
      cases failure <;> simp [Request.fields, Json.depth]
  | _ => simp [Request.fields, Request.pathValue, Json.nat, Json.depth, hpaths]

theorem depth_le_one (envelope : Envelope) : ∀ member ∈ envelope.members, member.2.depth ≤ 1 := by
  have hid : (envelope.id.elim .null .nat : Json).depth ≤ 1 := by
    cases envelope.id <;> simp [Json.nat, Json.depth]
  refine List.forall_mem_cons.mpr ⟨hid, List.forall_mem_cons.mpr ⟨by simp [Json.depth], fun member hmem => ?_⟩⟩
  obtain ⟨field, hfield, rfl⟩ := List.mem_map.mp hmem
  exact depth_le_one_of_mem_fields hfield

end Envelope

namespace Envelope.SentBy

variable {envelope : Envelope} {shown extras members : List (String × Json)}

theorem given (h : envelope.SentBy shown extras members) {key : String} {value : Json}
    (hmem : (key, value) ∈ envelope.members) : Given members key value := by
  have hall := valuesOf_of_nodup envelope.nodup_names hmem
  have hextras : valuesOf extras key = [] := by
    refine valuesOf_eq_nil_iff.mpr fun hkey => ?_
    obtain ⟨other, hother, rfl⟩ := List.mem_map.mp hkey
    exact h.apart other hother (List.mem_map.mpr ⟨_, hmem, rfl⟩)
  have hperm : (valuesOf members key).Perm (valuesOf shown key) := by
    have hvalues : (valuesOf members key).Perm (valuesOf (shown ++ extras) key) := (h.perm.filter _).map _
    rwa [valuesOf_append, hextras, List.append_nil] at hvalues
  have hshown : (valuesOf shown key).Sublist [value] := hall ▸ (h.sublist.filter _).map _
  -- What is shown under the name is its value, or it is left out.
  obtain hnone | ⟨rest, hone, hrest⟩ := List.sublist_cons_iff.mp hshown
  · have hnil := List.sublist_nil.mp hnone
    rw [hnil] at hperm
    refine Or.inr ⟨hperm.eq_nil, h.mem_default _ hmem fun hin => ?_⟩
    exact valuesOf_eq_nil_iff.mp hnil (List.mem_map.mpr ⟨_, hin, rfl⟩)
  · rw [hone, List.sublist_nil.mp hrest] at hperm
    exact Or.inl (List.perm_singleton.mp hperm)

theorem told (h : envelope.SentBy shown extras members) : Told members envelope where
  command := by
    obtain hgiven | ⟨-, hdefault⟩ := h.given (List.mem_cons_of_mem _ List.mem_cons_self)
    · exact ⟨_, hgiven, by simp [CommandName.ofJson, CommandName.ofText?_text]⟩
    · simp [defaultMembers, FieldName.text, idKey] at hdefault
  id := h.given List.mem_cons_self
  fields member hmem := h.given (List.mem_cons_of_mem _ (List.mem_cons_of_mem _ (List.mem_map.mpr ⟨member, hmem, rfl⟩)))

theorem depth_le (h : envelope.SentBy shown extras members) : (Json.object members).depth ≤ Json.depthLimit := by
  have hmembers : Json.depthMembers members ≤ 1 := by
    refine Json.depthMembers_le_iff.mpr fun member hmem => ?_
    obtain hshown | hextra := List.mem_append.mp (h.perm.mem_iff.mp hmem)
    · exact envelope.depth_le_one member (h.sublist.mem hshown)
    · have hplain := h.plain member hextra
      unfold IsPlain at hplain
      split at hplain <;> simp_all [Json.depth]
  exact Nat.le_trans (Nat.succ_le_succ hmembers) (by decide)

end Envelope.SentBy

/-- A request that is sent is read as it is, in whatever order its members stand, whichever defaults are left out,
whatever other members there are, and however the object is written. -/
theorem Envelope.decoding_law
    {envelope : Envelope} {shown extras members : List (String × Json)} (h : envelope.SentBy shown extras members) :
    (∀ {text before after}, Json.Spells (.object members) text → Json.Blanks before → Json.Blanks after →
      read (String.ofList (before ++ (text ++ after))) = .ok envelope) ∧
    (Json.AllNumbers Json.IsWord (.object members) → read (Json.object members).compress = .ok envelope) := by
  constructor
  · intro text before after htext hbefore hafter
    exact (read_eq_ok_iff_told _ envelope).mpr ⟨members, Json.read_spelled htext h.depth_le hbefore hafter, h.told⟩
  · intro hwords
    exact (read_eq_ok_iff_told _ envelope).mpr ⟨members, Json.read_compress hwords h.depth_le, h.told⟩

/-- The command comes last, behind another's field, with the defaults left out. -/
theorem Envelope.decoding_law_command_last :
    read (Json.object
      [("file", .nat 5), ("do_not_clear", .bool true), ("success", .string "^\"ok\""), ("code", .string "x();\n"),
       ("command", .string "run_statement"), ("id", .nat 7)]).compress =
      .ok ⟨some 7, .runStatement { code := "x();\n", success := "^\"ok\"", keepOutput := true }⟩ := by
  have hsent : SentBy ⟨some 7, .runStatement { code := "x();\n", success := "^\"ok\"", keepOutput := true }⟩
      [("id", .nat 7), ("command", .string "run_statement"), ("code", .string "x();\n"),
       ("success", .string "^\"ok\""), ("do_not_clear", .bool true)]
      [("file", .nat 5)] _ :=
    { perm := List.reverse_perm _
      sublist := .cons_cons _ (.cons_cons _ (.cons_cons _ (.cons_cons _ (.cons _ (.cons _ (.cons_cons _ .slnil))))))
      mem_default := by
        simp [Envelope.members, Request.members, Request.fields, CommandName.text, Request.command, defaultMembers,
          FieldName.text, idKey]
      apart := by
        simp [Envelope.members, Request.members, Request.fields, FieldName.text, idKey]
      plain := by simp [IsPlain, Json.nat] }
  exact (decoding_law hsent).2
    (by simp [Json.AllNumbers, Json.AllNumbersMembers, Json.IsWord, Json.nat, Json.wordLimit])

end CompilerRelay
