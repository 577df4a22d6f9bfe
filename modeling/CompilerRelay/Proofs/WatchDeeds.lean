import CompilerRelay.Proofs.RelaySessions

/-!
# What operations do to the watches

Every step of an operation, as far as it concerns the watches: it installs one, it knows of one that it is in the slot
no more, or the watch that waits hears lines and the end of the output.

**Form.**  `Relay.Handles before after deeds`: what a step does to the watches.  `Relay.Expects waiting deeds`: after
these deeds, every watch that was installed is in the slot no more, but for the one in `waiting`.
`Relay.Leaves before operation after`: the operation is begun with the one watch of its own in `before`, and it ends
with that in `after`, or with none if it fails.

**Invariant.**  No operation gives up a watch that it did not install: `Relay.Fits`.

**Composition.**  There is one lemma for each way to build an operation.

**Results.**
* `WatchSlot.dropped_perform`: only a request with the number of a watch gives the watch up.
* `Relay.leaves_start`: a start ends without a watch of its own, however it ends.
-/

namespace CompilerRelay

/-! ## Requests that hear only -/

/-- Whether a request neither installs a watch nor gives one up. -/
def WatchRequest.isHearing : WatchRequest → Bool
  | .offer _ | .abandon => true
  | .install _ _ | .clearIf _ => false

namespace WatchSlot

variable {slot before between after : WatchSlot}

theorem settlement?_of_settle
    {settlement other : Settlement} {id : Nat} (h : (slot.settle settlement).settlement? id = some other) :
    slot.settlement? id = some other ∨ settlement = other ∧ ∃ watch, slot.active = some watch ∧ watch.id = id := by
  cases hactive : slot.active with
  | none => exact .inl (by simpa [settle, hactive] using h)
  | some watch =>
      have hsettle : (slot.settle settlement).settlement? id =
          if id = watch.id then some settlement else slot.settlement? id := by
        simpa [settle, hactive, settlement?] using settlement?_cons slot id watch.id settlement
      rw [hsettle] at h
      by_cases hid : id = watch.id
      · rw [if_pos hid] at h
        exact .inr ⟨Option.some.inj h, watch, rfl, hid.symm⟩
      · rw [if_neg hid] at h
        exact .inl h

/-- Only a request with the number of a watch gives the watch up. -/
theorem dropped_perform
    (request : WatchRequest) {id : Nat} (h : (slot.perform request).2.settlement? id = some .dropped) :
    slot.settlement? id = some .dropped ∨ request = .clearIf id := by
  have hanswered {outcome : WatchOutcome} (h : (slot.settle (.answered outcome)).settlement? id = some .dropped) :
      slot.settlement? id = some .dropped := by
    rcases settlement?_of_settle h with hold | ⟨hsame, -⟩
    · exact hold
    · cases hsame
  cases request with
  | install success failure => exact .inl (hanswered h)
  | offer line =>
      simp only [perform, offer] at h
      split at h
      · exact .inl h
      · exact .inl (hanswered h)
  | clearIf other =>
      simp only [perform, clearIf] at h
      split at h
      · next hother =>
          rcases settlement?_of_settle h with hold | ⟨-, watch, hactive, rfl⟩
          · exact .inl hold
          · rw [hactive, Option.any_some, beq_iff_eq] at hother
            exact .inr (congrArg _ hother.symm)
      · exact .inl h
  | abandon => exact .inl (hanswered h)

/-- The watch that waits hears lines, or that there will be no more; nothing is installed, and nothing given up. -/
def Hears (before after : WatchSlot) : Prop :=
  ∃ requests : List WatchRequest, requests.all (·.isHearing) = true ∧ after = before.performAll requests

theorem Hears.refl (slot : WatchSlot) : slot.Hears slot := ⟨[], rfl, rfl⟩

theorem Hears.of_eq (h : after = before) : before.Hears after := h ▸ .refl _

theorem Hears.trans (hfirst : before.Hears between) (hsecond : between.Hears after) : before.Hears after := by
  obtain ⟨one, hone, rfl⟩ := hfirst
  obtain ⟨two, htwo, rfl⟩ := hsecond
  exact ⟨one ++ two, by rw [List.all_append, hone, htwo]; rfl, (performAll_append before one two).symm⟩

theorem Hears.becomes (h : before.Hears after) : before.Becomes after := by
  obtain ⟨requests, -, hafter⟩ := h
  exact ⟨requests, hafter⟩

theorem Hears.lastId_eq (h : before.Hears after) : after.lastId = before.lastId := by
  obtain ⟨requests, hhearing, rfl⟩ := h
  have hnone : requests.countP WatchRequest.isInstall = 0 := by
    refine List.countP_eq_zero.mpr fun request hrequest => ?_
    have hheard := List.all_eq_true.mp hhearing request hrequest
    cases request <;> simp_all [WatchRequest.isInstall, WatchRequest.isHearing]
  rw [lastId_performAll, hnone, Nat.add_zero]

/-- What hears is not given up. -/
theorem Hears.dropped
    (h : before.Hears after) {id : Nat} (hdropped : after.settlement? id = some .dropped) :
    before.settlement? id = some .dropped := by
  obtain ⟨requests, hhearing, rfl⟩ := h
  induction requests generalizing before with
  | nil => exact hdropped
  | cons request rest ih =>
      obtain ⟨hheard, hrest⟩ := Bool.and_eq_true_iff.mp hhearing
      rcases dropped_perform request (ih hrest hdropped) with hold | rfl
      · exact hold
      · cases hheard

end WatchSlot

/-- Whether an act neither installs a watch nor gives one up. -/
def ChannelAct.isHearing : ChannelAct → Bool
  | .install _ _ | .clearWatch _ => false
  | _ => true

namespace Channel

theorem offers_hear (slot : WatchSlot) (lines : List String) :
    slot.Hears (slot.performAll (lines.map WatchRequest.offer)) :=
  ⟨_, by simp [WatchRequest.isHearing], rfl⟩

theorem writeBytes_hears (channel : Channel) (tree : FileTree) (chunk : Bytes) :
    channel.watch.Hears (channel.writeBytes tree chunk).1.watch := by
  rw [writeBytes_watch]
  exact offers_hear _ _

theorem perform_hears (state : Channel × FileTree) (act : ChannelAct) (hact : act.isHearing = true) :
    state.1.watch.Hears (perform state act).1.watch := by
  cases act with
  | writeBytes chunk => exact writeBytes_hears state.1 state.2 chunk
  | write text => exact writeBytes_hears state.1 state.2 (Utf8.encode text)
  | writeBlock text =>
      have htext : state.1.watch.Hears (state.1.write state.2 text).1.watch :=
        writeBytes_hears state.1 state.2 (Utf8.encode text)
      simp only [perform, writeBlock]
      split
      · exact htext
      · exact htext.trans (writeBytes_hears _ _ (Utf8.encode "\n"))
  | line line => exact ⟨[.offer line], rfl, handleLine_watch state.1 state.2 line⟩
  | finish => exact ⟨_, by simp [WatchRequest.isHearing], finish_watch state.1 state.2⟩
  | abandon => exact ⟨[.abandon], rfl, rfl⟩
  | enableLog stamp => exact .of_eq (enableLog_watch state.1 stamp state.2)
  | clear | clearDiagnostics | forgetTemplates | locate | disableLog | notify | sessionStopped | files => exact .refl _
  | install | clearWatch => cases hact

theorem performAll_hears
    (state : Channel × FileTree) {acts : List ChannelAct} (hacts : acts.all (·.isHearing) = true) :
    state.1.watch.Hears (performAll state acts).1.watch := by
  induction acts generalizing state with
  | nil => exact .refl _
  | cons act rest ih =>
      obtain ⟨hact, hrest⟩ := Bool.and_eq_true_iff.mp hacts
      exact (perform_hears state act hact).trans (ih (perform state act) hrest)

end Channel

namespace Relay

/-! ## Steps that hear only -/

/-- The watch that waits hears lines, or that there will be no more. -/
def Hears (before after : Relay) : Prop :=
  before.channel.watch.Hears after.channel.watch

section Hearing

variable {α : Type}

theorem Hears.refl (relay : Relay) : relay.Hears relay := WatchSlot.Hears.refl _

theorem look_within_hears (view : Relay → α) : (look view).run.Within Hears :=
  Task.within_lift (Task.within_look Hears.refl view)

theorem change_within_hears
    {change : Relay → Relay} (h : ∀ relay : Relay, relay.Hears (change relay)) :
    (Relay.change change).run.Within Hears :=
  Task.within_lift (Task.within_update h)

/-- A change of the channel and the files that comes of acts. -/
theorem changeOutput_within_hears
    {change : Channel → FileTree → Channel × FileTree} (acts : List ChannelAct)
    (hacts : acts.all (·.isHearing) = true)
    (h : ∀ channel files, Channel.performAll (channel, files) acts = change channel files) :
    (Relay.change (·.changeOutput change)).run.Within Hears := by
  refine change_within_hears fun relay => ?_
  have hheard := Channel.performAll_hears (relay.channel, relay.files) hacts
  rwa [h] at hheard

/-- A change of the channel that leaves the watches alone. -/
theorem onChannel_within_hears
    {change : Channel → Channel} (h : ∀ channel, (change channel).watch = channel.watch) :
    (onChannel change).run.Within Hears :=
  change_within_hears fun relay => .of_eq (h relay.channel)

theorem clearForBuild_within_hears : clearForBuild.run.Within Hears := by
  refine Task.within_bind (look_within_hears _) fun wanted => ?_
  split
  · exact onChannel_within_hears fun _ => rfl
  · exact Task.within_pure _

theorem clearDiagnostics_within_hears : clearDiagnostics.run.Within Hears :=
  onChannel_within_hears fun _ => rfl

theorem forgetTemplates_within_hears : (onChannel Channel.forgetTemplates).run.Within Hears :=
  onChannel_within_hears fun _ => rfl

theorem setSlot_within_hears (slot : Slot) : (setSlot slot).run.Within Hears :=
  change_within_hears Hears.refl

theorem spawn_hears (relay : Relay) : relay.Hears relay.spawn.2 := by
  unfold spawn
  split
  · exact .refl relay
  · split <;> exact .refl relay

theorem deliver_hears (text : String) (relay : Relay) : relay.Hears (deliver text relay).2 := by
  unfold deliver
  split
  · split <;> exact .refl relay
  · exact .refl relay
  · exact .refl relay

theorem send_within_hears (command : Command) : (send command).run.Within Hears :=
  Task.within_act (deliver_hears command.render)

theorem endSession_within_hears : endSession.run.Within Hears := by
  refine Task.within_bind (Task.within_lift (Task.within_act Hears.refl)) fun slot => ?_
  refine Task.within_bind (change_within_hears fun relay => ⟨[.abandon], rfl, rfl⟩) fun _ => ?_
  cases slot with
  | running session => exact change_within_hears Hears.refl
  | stopped | starting => exact Task.within_pure _

theorem cleanAndReport_within_hears (header footer : String) : (cleanAndReport header footer).run.Within Hears := by
  refine Task.within_bind (Task.within_lift (Task.within_act Hears.refl)) fun result => ?_
  refine Task.within_bind endSession_within_hears fun _ => ?_
  refine Task.within_bind (attempt_within .clean result) fun written => ?_
  refine changeOutput_within_hears
    [.write ("[INFO " ++ header ++ ":]\n" ++ rule ++ "\n"), .writeBlock written.text,
      .write (rule ++ "\n[INFO " ++ footer ++ "]\n")] rfl fun channel files => ?_
  simp only [Channel.performAll_cons, Channel.performAll_nil, Channel.perform]

theorem onTemplates_within_hears (work : Path → FileTree → Except TemplateFault α × FileTree) :
    (onTemplates work).run.Within Hears :=
  Task.within_bind (Task.within_lift (Task.within_act Hears.refl)) fun result => attempt_within .preprocess result

theorem preprocess_within_hears (file : Path) : (preprocess file).run.Within Hears := by
  refine Task.within_bind (onTemplates_within_hears _) fun target => ?_
  split
  · exact Task.within_bind forgetTemplates_within_hears fun _ => Task.within_pure _
  · exact Task.within_pure _

theorem beginLog_hears (relay : Relay) : relay.Hears relay.beginLog.2 := by
  let acts : List ChannelAct := [.write (logLine relay.channel.log.path), .enableLog (relay.host.stamp relay.clock)]
  have hlogged : relay.channel.watch.Hears (Channel.performAll (relay.channel, relay.files) acts).1.watch :=
    Channel.performAll_hears _ rfl
  simp only [acts, Channel.performAll_cons, Channel.performAll_nil, Channel.perform] at hlogged
  unfold Hears beginLog
  simp only
  split
  · next hlog => rwa [hlog] at hlogged
  · next hlog => rwa [hlog] at hlogged

theorem locate_within_hears (line : String) : (act (locate line)).run.Within Hears := by
  refine Task.within_act fun relay => ?_
  unfold locate
  split <;> exact .refl relay

end Hearing

/-! ## Deeds -/

/-- What an operation does to a watch. -/
inductive WatchDeed where
  | installs (id : Nat)
  /-- The operation knows that the watch is in the slot no more. -/
  | parts (id : Nat)

/-- What a step of an operation does to the watches. -/
inductive Handles (before after : Relay) : List WatchDeed → Prop
  | hears (h : before.Hears after) : Handles before after []
  | installs {success : String → Bool} {failure : Option (String → Bool)}
      (hwatch : after.channel.watch = (before.channel.watch.install success failure).2) :
      Handles before after [.installs after.channel.watch.lastId]
  | givesUp (id : Nat) (hwatch : after.channel.watch = before.channel.watch.clearIf id) :
      Handles before after [.parts id]
  | sees {id : Nat} (hwatch : after.channel.watch = before.channel.watch)
      (hsettled : before.channel.watch.settlement? id ≠ none) :
      Handles before after [.parts id]

/-- An operation parts only with what it installed. -/
def Fits (deeds : List WatchDeed) : Prop :=
  ∀ id, .parts id ∈ deeds → .installs id ∈ deeds

/-- Every watch that was installed is in the slot no more, but for one. -/
structure Expects (waiting : Option Nat) (deeds : List WatchDeed) : Prop where
  fits : Fits deeds
  installed : ∀ id, waiting = some id → .installs id ∈ deeds
  parted : ∀ id, .installs id ∈ deeds → .parts id ∈ deeds ∨ waiting = some id

/-- What a step does to the slot is a list of requests. -/
theorem Handles.becomes
    {before after : Relay} {deeds : List WatchDeed} (h : before.Handles after deeds) :
    before.channel.watch.Becomes after.channel.watch := by
  cases h with
  | hears hheard => exact hheard.becomes
  | installs hwatch => exact ⟨[.install _ _], hwatch⟩
  | givesUp id hwatch => exact ⟨[.clearIf id], hwatch⟩
  | sees hwatch => exact ⟨[], hwatch⟩

/-- A step gives up no watch but the one that it parts with. -/
theorem Handles.dropped
    {before after : Relay} {deeds : List WatchDeed} (h : before.Handles after deeds)
    {id : Nat} (hdropped : after.channel.watch.settlement? id = some .dropped) :
    before.channel.watch.settlement? id = some .dropped ∨ .parts id ∈ deeds := by
  cases h with
  | hears hheard => exact .inl (hheard.dropped hdropped)
  | @installs success failure hwatch =>
      rw [hwatch] at hdropped
      exact .inl ((WatchSlot.dropped_perform (.install success failure) hdropped).resolve_right (by simp))
  | givesUp other hwatch =>
      rw [hwatch] at hdropped
      refine (WatchSlot.dropped_perform (.clearIf other) hdropped).imp_right fun hsame => ?_
      rw [WatchRequest.clearIf.inj hsame]
      exact List.mem_singleton_self _
  | sees hwatch => exact .inl (hwatch ▸ hdropped)

namespace Expects

variable {waiting : Option Nat} {deeds : List WatchDeed}

theorem nothing : Expects none [] where
  fits := by simp [Fits]
  installed := by simp
  parted := by simp

theorem install (h : Expects none deeds) (id : Nat) : Expects (some id) (deeds ++ [.installs id]) where
  fits := fun other hother => by
    have hold : .parts other ∈ deeds := by simpa using hother
    exact List.mem_append_left _ (h.fits other hold)
  installed := fun other hother => by simp [Option.some.inj hother]
  parted := fun other hother => by
    rcases List.mem_append.mp hother with hold | hnew
    · exact .inl (List.mem_append_left _ ((h.parted other hold).resolve_right (by simp)))
    · exact .inr (congrArg some (WatchDeed.installs.inj (List.mem_singleton.mp hnew)).symm)

theorem part {id : Nat} (h : Expects (some id) deeds) : Expects none (deeds ++ [.parts id]) where
  fits := fun other hother => by
    refine List.mem_append_left _ ?_
    rcases List.mem_append.mp hother with hold | hnew
    · exact h.fits other hold
    · obtain rfl := WatchDeed.parts.inj (List.mem_singleton.mp hnew)
      exact h.installed other rfl
  installed := by simp
  parted := fun other hother => by
    have hold : .installs other ∈ deeds := by simpa using hother
    rcases h.parted other hold with hparted | hwaits
    · exact .inl (List.mem_append_left _ hparted)
    · obtain rfl := Option.some.inj hwaits
      exact .inl (by simp)

end Expects

/-! ## Operations -/

/-- What waits after an operation: nothing if it failed. -/
def remaining {α : Type} (after : α → Option Nat) : Except Failure α → Option Nat
  | .ok value => after value
  | .error _ => none

/-- The operation is begun with the one watch of its own in `before`, and it ends with that in `after`. -/
def Leaves {α : Type} (before : Option Nat) (operation : Operation α) (after : α → Option Nat) : Prop :=
  ∀ past, Expects before past →
    operation.run.Follows Handles Fits past fun deeds result => Expects (remaining after result) deeds

namespace Leaves

variable {α β : Type} {before : Option Nat}

theorem pure {after : α → Option Nat} (value : α) (h : before = after value) :
    Leaves before (pure value) after := by
  intro past hpast
  rw [h] at hpast
  exact hpast

theorem throw {after : α → Option Nat} (failure : Failure) : Leaves none (throw failure : Operation α) after :=
  fun _ h => h

theorem bind
    {operation : Operation α} {mid : α → Option Nat} (h : Leaves before operation mid)
    {follow : α → Operation β} {after : β → Option Nat} (hfollow : ∀ value, Leaves (mid value) (follow value) after) :
    Leaves before (operation >>= follow) after :=
  fun past hpast => Task.follows_bind (h past hpast) (fun deeds value hmid => hfollow value deeds hmid)
    fun _ _ hfailed => hfailed

/-- An operation that installs nothing and waits for nothing. -/
theorem of_within {operation : Operation α} (h : operation.run.Within Hears) :
    Leaves none operation fun _ => none := by
  intro past hpast
  refine (h.follows (fun _ _ => .hears) hpast.fits).mono fun deeds result hdeeds => ?_
  subst hdeeds
  cases result <;> exact hpast

/-- A step that cannot fail leaves waiting what waits. -/
theorem lift {task : Task Relay α} (h : task.Within Hears) :
    Leaves before (ExceptT.lift task : Operation α) fun _ => before := by
  intro past hpast
  refine Task.follows_lift (h.follows (fun _ _ => .hears) hpast.fits) fun deeds value hdeeds => ?_
  subst hdeeds
  exact hpast

end Leaves

section Operations

theorem leaves_install (success : Pattern) (failure : Option Pattern) :
    Leaves none (install success failure) some := by
  intro past hpast relay _
  have hinstall :
      Expects (some (relay.channel.watch.lastId + 1)) (past ++ [.installs (relay.channel.watch.lastId + 1)]) :=
    hpast.install _
  exact ⟨_, .installs rfl, hinstall.fits, hinstall⟩

theorem leaves_clearWatch (id : Nat) : Leaves (some id) (clearWatch id) fun _ => none :=
  fun _ hpast _ _ => ⟨_, .givesUp id rfl, hpast.part.fits, hpast.part⟩

/-- However the wait ends, the watch is in the slot no more. -/
theorem leaves_awaitWatch (watch : PendingWatch) :
    Leaves (some watch.id) (ExceptT.lift (awaitWatch watch) : Operation _) fun _ => none := by
  intro past hpast
  refine Task.follows_lift ?_ fun _ _ h => h
  have hlook : (Task.look Relay.clock).Follows Handles Fits past fun deeds _ => deeds = past :=
    (Task.within_look Hears.refl _).follows (fun _ _ => .hears) hpast.fits
  refine hlook.bind fun deeds start hdeeds => ?_
  subst hdeeds
  have hawait : (Task.await (watchState? watch.id (start + watch.limit))).Follows Handles Fits deeds
      fun after settled => Expects (if settled.isSome then none else some watch.id) after := by
    intro relay hready
    obtain ⟨settled, hstate⟩ := Option.isSome_iff_exists.mp hready
    have hvalue : (watchState? watch.id (start + watch.limit) relay).get hready = settled :=
      Option.get_of_eq_some _ hstate
    cases settled with
    | some settlement =>
        have hsettled : relay.channel.watch.settlement? watch.id ≠ none := by
          intro hnone
          simp only [watchState?, hnone] at hstate
          split at hstate <;> cases hstate
        refine ⟨[.parts watch.id], .sees rfl hsettled, hpast.part.fits, ?_⟩
        change Expects (if ((watchState? watch.id (start + watch.limit) relay).get hready).isSome then _ else _) _
        rw [hvalue]
        exact hpast.part
    | none =>
        refine ⟨[], .hears (.refl relay), by simpa using hpast.fits, ?_⟩
        change Expects (if ((watchState? watch.id (start + watch.limit) relay).get hready).isSome then _ else _) _
        rw [hvalue, List.append_nil]
        exact hpast
  refine hawait.bind fun deeds settled hdeeds => ?_
  cases settled with
  | some settlement => exact hdeeds
  | none =>
      have hwaits : Expects (some watch.id) deeds := hdeeds
      have hclear : (Task.update (·.changeChannel (·.clearWatch watch.id)) : Task Relay Unit).Follows Handles Fits deeds
          fun after _ => Expects none after :=
        fun _ _ => ⟨_, .givesUp watch.id rfl, hwaits.part.fits, hwaits.part⟩
      exact hclear.bind fun _ _ h => h

end Operations
end Relay
end CompilerRelay
