import CompilerRelay.Message
import CompilerRelay.Proofs.LineFraming
import CompilerRelay.Proofs.Locators
import CompilerRelay.Proofs.ValueSpelling

/-!
# Messages as lines

What leaves the relay can be cut into its messages again, and each message can be told from its line.

**Input.**  Messages with any texts in them.

**Results.**
* `Message.newline_notMem_encode`: a message is one line.
* `Message.members_injective`, `Message.toJson_injective`: the object of a message tells the message.
* `Message.read_encode`: the line of a message is read back as its object.
* `Message.framing_law`: the lines are the messages, in order, and no two messages have the same line.
-/

namespace CompilerRelay

/-! ## Objects that tell what they were made of -/

theorem Severity.label_injective : Function.Injective Severity.label := by
  intro first second h
  cases first <;> cases second <;> first | rfl | exact absurd h (by decide)

namespace Message

theorem replyName_injective : Function.Injective replyName := by
  intro first second h
  cases first <;> cases second <;> first | rfl | exact absurd h (by decide)

theorem diagnosticJson_injective : Function.Injective diagnosticJson := by
  rintro ⟨severity, message, line, column⟩ ⟨otherSeverity, otherMessage, otherLine, otherColumn⟩ h
  simp only [diagnosticJson, Json.nat, Json.object.injEq, List.cons.injEq, Prod.mk.injEq, Json.string.injEq,
    Json.number.injEq, JsonNumber.natural.injEq, UInt32.toNat_inj, true_and, and_true] at h
  obtain ⟨hseverity, rfl, rfl, rfl⟩ := h
  rw [Severity.label_injective hseverity]

theorem itemsJson_injective : Function.Injective itemsJson := by
  intro first second h
  exact diagnosticJson_injective.list_map (Json.array.inj h)

theorem fileJson_injective : Function.Injective fileJson := by
  rintro ⟨uri, items⟩ ⟨otherUri, otherItems⟩ h
  simp only [fileJson, Json.object.injEq, List.cons.injEq, Prod.mk.injEq, Json.string.injEq, true_and, and_true] at h
  obtain ⟨rfl, hitems⟩ := h
  rw [itemsJson_injective hitems]

theorem optionalMember_injective (name : String) : Function.Injective (optionalMember name) := by
  intro first second h
  cases first <;> cases second <;> simp_all [optionalMember]

/-- A number in front is told from members that come without one. -/
theorem idMember_append_inj
    {id other : Option Nat} {rest more : List (String × Json)} (hrest : ∀ member ∈ rest, member.1 ≠ "id")
    (hmore : ∀ member ∈ more, member.1 ≠ "id") (h : idMember id ++ rest = idMember other ++ more) :
    id = other ∧ rest = more := by
  cases id with
  | none =>
      cases other with
      | none => exact ⟨rfl, h⟩
      | some number =>
          have hmem : ("id", Json.nat number) ∈ rest := by
            have hfront : rest = ("id", Json.nat number) :: more := h
            simp [hfront]
          exact absurd rfl (hrest _ hmem)
  | some number =>
      cases other with
      | none =>
          have hmem : ("id", Json.nat number) ∈ more := by
            have hfront : ("id", Json.nat number) :: rest = more := h
            simp [← hfront]
          exact absurd rfl (hmore _ hmem)
      | some otherNumber =>
          obtain ⟨hhead, htail⟩ := List.cons.inj h
          obtain rfl : number = otherNumber := by simpa [Json.nat] using hhead
          exact ⟨rfl, htail⟩

theorem optionalMember_ne_id {name : String} (hname : name ≠ "id") (value : Option Json) :
    ∀ member ∈ optionalMember name value, member.1 ≠ "id" := by
  cases value <;> simp [optionalMember, hname]

/-- Messages of one type are told apart by their members. -/
theorem members_injective {first second : Message} (htype : first.typeName = second.typeName)
    (h : first.members = second.members) : first = second := by
  cases first with
  | ok id uri =>
      cases second with
      | ok otherId otherUri =>
          obtain ⟨rfl, huri⟩ := idMember_append_inj (optionalMember_ne_id (by decide) _)
            (optionalMember_ne_id (by decide) _) h
          have hsame : uri = otherUri :=
            Option.map_injective (fun _ _ => Json.string.inj) (optionalMember_injective "uri" huri)
          rw [hsame]
      | _ => simp [typeName] at htype
  | error id text =>
      cases second with
      | error otherId otherText =>
          obtain ⟨rfl, htext⟩ := idMember_append_inj (by simp) (by simp) h
          simp_all
      | _ => simp [typeName] at htype
  | location id uri line column =>
      cases second with
      | location otherId otherUri otherLine otherColumn =>
          obtain ⟨rfl, hplace⟩ := idMember_append_inj (by simp) (by simp) h
          simp_all [Json.nat, UInt32.toNat_inj]
      | _ => simp [typeName] at htype
  | statement id outcome line =>
      cases second with
      | statement otherId otherOutcome otherLine =>
          have hnot {reply : Json} {rest : Option Json} :
              ∀ member ∈ ("outcome", reply) :: optionalMember "line" rest, member.1 ≠ "id" :=
            List.forall_mem_cons.mpr ⟨by simp, optionalMember_ne_id (by decide) rest⟩
          obtain ⟨rfl, hrest⟩ := idMember_append_inj hnot hnot h
          obtain ⟨houtcome, hline⟩ := List.cons.inj hrest
          have hsame : line = otherLine :=
            Option.map_injective (fun _ _ => Json.string.inj) (optionalMember_injective "line" hline)
          rw [hsame, replyName_injective (Json.string.inj (Prod.mk.inj houtcome).2)]
      | _ => simp [typeName] at htype
  | snapshot id errors warnings status files =>
      cases second with
      | snapshot otherId otherErrors otherWarnings otherStatus otherFiles =>
          obtain ⟨rfl, hrest⟩ := idMember_append_inj (by simp) (by simp) h
          simp only [Json.nat, List.cons.injEq, Prod.mk.injEq, Json.number.injEq, JsonNumber.natural.injEq,
            Json.string.injEq, Json.array.injEq, true_and, and_true] at hrest
          obtain ⟨rfl, rfl, rfl, hfiles⟩ := hrest
          rw [fileJson_injective.list_map hfiles]
      | _ => simp [typeName] at htype
  | output line =>
      cases second with
      | output otherLine => simp_all [members]
      | _ => simp [typeName] at htype
  | outputCleared =>
      cases second with
      | outputCleared => rfl
      | _ => simp [typeName] at htype
  | diagnostics uri items =>
      cases second with
      | diagnostics otherUri otherItems =>
          simp only [members, List.cons.injEq, Prod.mk.injEq, Json.string.injEq, true_and, and_true] at h
          obtain ⟨rfl, hitems⟩ := h
          rw [itemsJson_injective hitems]
      | _ => simp [typeName] at htype
  | diagnosticsCleared =>
      cases second with
      | diagnosticsCleared => rfl
      | _ => simp [typeName] at htype
  | notification text =>
      cases second with
      | notification otherText => simp_all [members]
      | _ => simp [typeName] at htype
  | sessionStopped reason =>
      cases second with
      | sessionStopped otherReason => simp_all [members]
      | _ => simp [typeName] at htype

/-- The object of a message tells the message. -/
theorem toJson_injective : Function.Injective toJson := by
  intro first second h
  obtain ⟨htype, hmembers⟩ := List.cons.inj (Json.object.inj h)
  exact members_injective (Json.string.inj (Prod.mk.inj htype).2) hmembers

/-! ## Numbers in messages -/

/-- The numbers of a message, its positions aside. -/
def counts : Message → List Nat
  | .snapshot id errors warnings _ _ => errors :: warnings :: id.toList
  | message => message.id?.toList

/-- The numbers of a message are numbers of 64 bits. -/
def HasWords (message : Message) : Prop :=
  ∀ count ∈ message.counts, count < Json.wordLimit

/-- What holds of every kind of value in a message holds of all its members. -/
theorem forall_members
    {holds : Json → Prop} {message : Message} (hcount : ∀ count ∈ message.counts, holds (.nat count))
    (hposition : ∀ position : UInt32, holds (.nat position.toNat)) (htext : ∀ text, holds (.string text))
    (hitems : ∀ items, holds (itemsJson items))
    (hfiles : ∀ files : List FileDiagnostics, holds (.array (files.map fileJson))) :
    ∀ member ∈ message.members, holds member.2 := by
  have hid {id : Option Nat} (hnumber : ∀ number ∈ id.toList, holds (.nat number)) :
      ∀ member ∈ idMember id, holds member.2 := by
    cases id with
    | none => simp [idMember, optionalMember]
    | some number => simpa [idMember, optionalMember] using hnumber
  have hoptional (name : String) (text : Option String) :
      ∀ member ∈ optionalMember name (text.map .string), holds member.2 := by
    cases text <;> simp [optionalMember, htext]
  cases message with
  | ok id uri => exact List.forall_mem_append.mpr ⟨hid hcount, hoptional "uri" uri⟩
  | error id text => exact List.forall_mem_append.mpr ⟨hid hcount, by simp [htext]⟩
  | location id uri line column => exact List.forall_mem_append.mpr ⟨hid hcount, by simp [htext, hposition]⟩
  | statement id outcome line =>
      exact List.forall_mem_append.mpr ⟨hid hcount, List.forall_mem_cons.mpr ⟨htext _, hoptional "line" line⟩⟩
  | snapshot id errors warnings status files =>
      obtain ⟨herrors, hmore⟩ := List.forall_mem_cons.mp hcount
      obtain ⟨hwarnings, hnumber⟩ := List.forall_mem_cons.mp hmore
      exact List.forall_mem_append.mpr ⟨hid hnumber, by simp [herrors, hwarnings, htext, hfiles]⟩
  | output | notification | sessionStopped => simp [members, htext]
  | outputCleared | diagnosticsCleared => simp [members]
  | diagnostics uri items => simp [members, htext, hitems]

/-- What holds of the counts and of all positions holds of all numbers in the object of a message. -/
theorem allNumbers_toJson
    {holds : JsonNumber → Prop} (hposition : ∀ position : UInt32, holds (.natural position.toNat))
    {message : Message} (hcount : ∀ count ∈ message.counts, holds (.natural count)) :
    Json.AllNumbers holds message.toJson := by
  have hitems (items : List Diagnostic) : Json.AllNumbers holds (itemsJson items) := by
    refine Json.allNumbersItems_iff.mpr fun item hitem => ?_
    obtain ⟨diagnostic, -, rfl⟩ := List.mem_map.mp hitem
    exact ⟨trivial, trivial, hposition _, hposition _, trivial⟩
  have hfiles (files : List FileDiagnostics) : Json.AllNumbers holds (.array (files.map fileJson)) := by
    refine Json.allNumbersItems_iff.mpr fun item hitem => ?_
    obtain ⟨file, -, rfl⟩ := List.mem_map.mp hitem
    exact ⟨trivial, hitems file.items, trivial⟩
  exact ⟨trivial, Json.allNumbersMembers_iff.mpr
    (forall_members hcount hposition (fun _ => trivial) hitems hfiles)⟩

/-- Messages are not nested deep. -/
theorem depth_toJson_le (message : Message) : message.toJson.depth ≤ 5 := by
  have hitems (items : List Diagnostic) : (itemsJson items).depth ≤ 2 := by
    refine Nat.succ_le_succ (Json.depthItems_le_iff.mpr fun item hitem => ?_)
    obtain ⟨diagnostic, -, rfl⟩ := List.mem_map.mp hitem
    exact le_refl 1
  have hfiles (files : List FileDiagnostics) : (Json.array (files.map fileJson)).depth ≤ 4 := by
    refine Nat.succ_le_succ (Json.depthItems_le_iff.mpr fun item hitem => ?_)
    obtain ⟨file, -, rfl⟩ := List.mem_map.mp hitem
    refine Nat.succ_le_succ (Json.depthMembers_le_iff.mpr ?_)
    simpa [Json.depth] using hitems file.items
  have hflat {json : Json} (h : json.depth = 0) : json.depth ≤ 4 := h ▸ Nat.zero_le 4
  have hmembers : ∀ member ∈ message.members, member.2.depth ≤ 4 :=
    @forall_members (fun json => json.depth ≤ 4) message (fun _ _ => hflat rfl) (fun _ => hflat rfl)
      (fun _ => hflat rfl) (fun items => le_trans (hitems items) (by decide)) hfiles
  exact Nat.succ_le_succ (Json.depthMembers_le_iff.mpr (List.forall_mem_cons.mpr ⟨Nat.zero_le 4, hmembers⟩))

/-! ## Lines -/

/-- A message is one line. -/
theorem newline_notMem_encode (message : Message) : LineBuffer.newline ∉ Utf8.encode message.encode := by
  refine Utf8.newline_notMem_encode fun hnewline => ?_
  rw [encode, Json.compress, String.toList_ofList] at hnewline
  have hprinted := Json.printed_render message.toJson
    (allNumbers_toJson (fun position => Json.printed_toDigits _) fun count _ => Json.printed_toDigits count)
  exact absurd (hprinted '\n' hnewline) (by decide)

/-- The line of a message is read back as its object. -/
theorem read_encode {message : Message} (h : message.HasWords) : Json.read message.encode = .ok message.toJson := by
  refine Json.read_compress (allNumbers_toJson (fun position => ?_) h) (le_trans message.depth_toJson_le (by decide))
  exact lt_trans position.toNat_lt (by decide)

/-- **Messages as lines.**  The bytes of messages are one line for each, in order, and no line holds another newline.
Each line is read back as the object of its message, and messages with the same line are the same. -/
theorem framing_law :
    (∀ messages : List Message,
      LineBuffer.Cut (encodeAll messages) (messages.map fun message => Utf8.encode message.encode) []) ∧
    (∀ message : Message, message.HasWords → Json.read message.encode = .ok message.toJson) ∧
    ∀ first second : Message, first.HasWords → second.HasWords → first.encode = second.encode → first = second := by
  refine ⟨fun messages => ⟨?_, ?_, by simp⟩, fun message h => read_encode h, fun first second hfirst hsecond h => ?_⟩
  · have hend : Utf8.encode "\n" = [LineBuffer.newline] := by decide +kernel
    simp [encodeAll, List.flatMap_map, hend]
  · intro line hline
    obtain ⟨message, -, rfl⟩ := List.mem_map.mp hline
    exact message.newline_notMem_encode
  · have hread := read_encode hfirst
    rw [h, read_encode hsecond] at hread
    exact (toJson_injective (Except.ok.inj hread)).symm

/-- A line with quotes, a backslash and a newline is read back, and a newline is not mistaken for its escape. -/
theorem framing_law_escapes :
    Json.read (output "say \"a\\b\"\n").encode = .ok (output "say \"a\\b\"\n").toJson ∧
      (output "\n").encode ≠ (output "\\n").encode := by
  have hwords (line : String) : (output line).HasWords := by simp [HasWords, counts, id?]
  exact ⟨framing_law.2.1 _ (hwords _), fun h => absurd (framing_law.2.2 _ _ (hwords _) (hwords _) h) (by decide)⟩

end Message
end CompilerRelay
