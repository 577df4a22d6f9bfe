import CompilerRelay.Proofs.DefinitionLines
import CompilerRelay.Proofs.OutputStream
import CompilerRelay.Proofs.RelayRun
import CompilerRelay.Proofs.TaskEndings

/-!
# Waiting for a line

What a watch hears while nobody takes it away, and what becomes of the one who waits for it.

**Input.**  Acts on a channel in which a watch waits, or is settled; and runs of the wait beside which anything may
happen, in which the clock never goes back.

**Form.**  `ChannelAct.leaves id act`: the act does not take the watch with this number from the slot.
`Relay.InTime watch settlement begun state`: at this moment of a wait that was begun earlier, the watch was settled in
this way, or there is time left.

**Invariant.**  What was settled stays as it is, so that in a run in which the watch is settled in time every moment is
in time.

**Results.**
* `Channel.performAll_leaves`: what is asked of the slot by such acts are the lines that are shown, in order.
* `Relay.Evolves.settlement?_eq`: what was settled stays as it is.
* `Relay.unblocked_wait`: a wait cannot be stuck once the watch is settled.
* `Relay.gives_wait`: in time, it ends with the line that settled the watch.
-/

namespace CompilerRelay

/-! ## What a watch hears -/

/-- Whether an act leaves the watch with a number to the lines: it installs no other, does not give the watch up, and
is not the end of the output. -/
def ChannelAct.leaves (id : Nat) : ChannelAct → Bool
  | .install _ _ | .abandon | .finish => false
  | .clearWatch other => other != id
  | .writeBytes _ | .write _ | .writeBlock _ | .line _ | .clear | .clearDiagnostics | .forgetTemplates | .locate _
  | .enableLog _ | .disableLog | .notify _ | .sessionStopped _ | .files _ => true

/-- No other watch waits. -/
def WatchSlot.Only (id : Nat) (slot : WatchSlot) : Prop :=
  ∀ watch, slot.active = some watch → watch.id = id

theorem WatchSlot.Only.offers
    {id : Nat} {slot : WatchSlot} (h : slot.Only id) (lines : List String) :
    (slot.performAll (lines.map .offer)).Only id := by
  induction lines generalizing slot with
  | nil => exact h
  | cons line rest ih =>
      refine ih fun watch hactive => ?_
      simp only [perform, offer] at hactive
      split at hactive
      · exact h watch hactive
      · cases hslot : slot.active <;> simp [settle, hslot] at hactive

namespace Channel

/-- Between two states the channel shows lines and offers them to the watch. -/
def Offers (before after : Channel) (lines : List String) : Prop :=
  after.shown = before.shown ++ lines ∧ after.watch = before.watch.performAll (lines.map .offer)

namespace Offers

variable {before between after : Channel} {lines more : List String}

theorem of_same (hshown : after.shown = before.shown) (hwatch : after.watch = before.watch) :
    before.Offers after [] :=
  ⟨by rw [hshown, List.append_nil], hwatch⟩

theorem trans (hfirst : before.Offers between lines) (hsecond : between.Offers after more) :
    before.Offers after (lines ++ more) := by
  obtain ⟨hshown, hwatch⟩ := hfirst
  obtain ⟨hlater, hlast⟩ := hsecond
  exact ⟨by rw [hlater, hshown, List.append_assoc],
    by rw [hlast, hwatch, List.map_append, WatchSlot.performAll_append]⟩

theorem writeBytes (channel : Channel) (tree : FileTree) (chunk : Bytes) :
    channel.Offers (channel.writeBytes tree chunk).1 (channel.buffer.push chunk).1 :=
  ⟨handleLines_outputLines { channel with buffer := (channel.buffer.push chunk).2.takeDropped.2 } tree _,
    writeBytes_watch channel tree chunk⟩

end Offers

/-- An act that leaves the watch asks nothing of the slot but what the lines that it shows ask. -/
theorem perform_leaves
    {state : Channel × FileTree} {id : Nat} (honly : state.1.watch.Only id)
    {act : ChannelAct} (hleaves : act.leaves id = true) :
    ∃ lines, state.1.Offers (perform state act).1 lines := by
  cases act with
  | writeBytes chunk => exact ⟨_, .writeBytes state.1 state.2 chunk⟩
  | write text => exact ⟨_, .writeBytes state.1 state.2 (Utf8.encode text)⟩
  | writeBlock text =>
      simp only [perform, writeBlock]
      have hwritten := Offers.writeBytes state.1 state.2 (Utf8.encode text)
      split
      · exact ⟨_, hwritten⟩
      · exact ⟨_, hwritten.trans (.writeBytes _ _ (Utf8.encode "\n"))⟩
  | line line => exact ⟨[line], handleLines_outputLines state.1 state.2 [line], handleLine_watch state.1 state.2 line⟩
  | clearWatch other =>
      refine ⟨[], .of_same rfl ?_⟩
      change state.1.watch.clearIf other = _
      rw [WatchSlot.clearIf, if_neg]
      intro hother
      obtain ⟨watch, hactive, hid⟩ := (Option.any_eq_true _ _).mp hother
      rw [ChannelAct.leaves, bne_iff_ne] at hleaves
      exact hleaves ((beq_iff_eq.mp hid).symm.trans (honly watch hactive))
  | clear => exact ⟨[], .of_same (shown_emit state.1 rfl) rfl⟩
  | clearDiagnostics => exact ⟨[], .of_same (shown_emit { state.1 with recorded := {} } rfl) rfl⟩
  | notify message => exact ⟨[], .of_same (shown_emit state.1 rfl) rfl⟩
  | sessionStopped reason => exact ⟨[], .of_same (shown_emit state.1 rfl) rfl⟩
  | enableLog stamp =>
      refine ⟨[], .of_same ?_ (enableLog_watch state.1 stamp state.2)⟩
      simp only [perform, enableLog]
      split <;> rfl
  | forgetTemplates | locate | disableLog | files => exact ⟨[], .of_same rfl rfl⟩
  | install | abandon | finish => cases hleaves

/-- What is asked of the slot are the lines that are shown, in order. -/
theorem performAll_leaves
    (state : Channel × FileTree) {id : Nat} (honly : state.1.watch.Only id)
    {acts : List ChannelAct} (hleaves : ∀ act ∈ acts, act.leaves id = true) :
    ∃ lines, state.1.Offers (performAll state acts).1 lines := by
  induction acts generalizing state with
  | nil => exact ⟨[], .of_same rfl rfl⟩
  | cons act rest ih =>
      obtain ⟨hact, hrest⟩ := List.forall_mem_cons.mp hleaves
      obtain ⟨first, hfirst⟩ := perform_leaves honly hact
      obtain ⟨more, hmore⟩ := ih _ (hfirst.2 ▸ honly.offers first) hrest
      exact ⟨first ++ more, hfirst.trans hmore⟩

end Channel

namespace Relay

/-! ## Time -/

/-- The relay evolves, and the clock does not go back. -/
structure GoesOn (before after : Relay) : Prop where
  evolves : before.Evolves after
  clock_le : before.clock ≤ after.clock

namespace GoesOn

variable {before between after : Relay}

theorem refl (relay : Relay) : relay.GoesOn relay := ⟨.refl relay, Nat.le_refl _⟩

theorem trans (hfirst : before.GoesOn between) (hsecond : between.GoesOn after) : before.GoesOn after :=
  ⟨hfirst.evolves.trans hsecond.evolves, hfirst.clock_le.trans hsecond.clock_le⟩

/-- A step that leaves the clock alone. -/
theorem of_evolves (h : before.Evolves after) (hclock : after.clock = before.clock) : before.GoesOn after :=
  ⟨h, hclock.ge⟩

theorem keeps : Keeps GoesOn where
  refl := refl
  slot := fun relay slot => of_evolves (Evolves.keeps.slot relay slot) rfl
  act := fun relay act hmute => of_evolves (Evolves.keeps.act relay act hmute) rfl
  spawn := fun relay => of_evolves (Evolves.spawn relay) (by
    unfold Relay.spawn
    split
    · rfl
    · split <;> rfl)
  killSession := fun relay number => of_evolves (Evolves.killSession relay number) rfl

theorem locate (line : String) (relay : Relay) : relay.GoesOn (Relay.locate line relay).2 :=
  of_evolves (Evolves.locate line relay) (by
    unfold Relay.locate
    split <;> rfl)

end GoesOn

/-- A run whose steps, and those of others, go on. -/
theorem goesOn_of_moves
    {α : Type} {task left : Task Relay α} {before after : Relay} (hmoves : Task.Moves GoesOn task before left after)
    (hwithin : task.Within GoesOn) :
    before.GoesOn after ∧ left.Within GoesOn :=
  hmoves.related GoesOn.refl GoesOn.trans (fun h => h) hwithin

/-- What holds throughout such a run tells what is left of the task. -/
theorem gives_of_moves
    {α : Type} {task left : Task Relay α} {before after : Relay} (hmoves : Task.Moves GoesOn task before left after)
    (hwithin : task.Within GoesOn) {holds : Relay → Prop} {property : α → Prop} (h : task.Gives holds property)
    (hholds : ∀ relay, before.GoesOn relay → relay.GoesOn after → holds relay) :
    left.Gives holds property :=
  h.moves GoesOn.refl GoesOn.trans (fun h => h) hwithin hmoves hholds

/-- What was settled stays as it is. -/
theorem Evolves.settlement?_eq
    {before after : Relay} (h : before.Evolves after) (hreachable : before.channel.Reachable)
    {id : Nat} {settlement : Settlement} (hsettled : before.channel.watch.settlement? id = some settlement) :
    after.channel.watch.settlement? id = some settlement := by
  obtain ⟨acts, hacts⟩ := h.output
  obtain ⟨requests, hrequests⟩ := Channel.performAll_watch (before.channel, before.files) acts
  obtain ⟨watches, htracks⟩ := hreachable.tracks
  rw [hacts] at hrequests
  rw [hrequests]
  exact htracks.settlement?_performAll_of_settled requests hsettled

/-! ## The one who waits -/

theorem wait_goesOn (watch : PendingWatch) : watch.wait.run.Within GoesOn :=
  Task.within_bind (Task.within_lift (GoesOn.keeps.awaitWatch_within watch)) fun result =>
    attempt_within .watch result

theorem waitLocation_goesOn (watch : PendingWatch) : watch.waitLocation.run.Within GoesOn :=
  Task.within_bind (wait_goesOn watch) fun line => Task.within_act (GoesOn.locate line)

/-- The watch with a number is settled. -/
def Settled (id : Nat) (relay : Relay) : Prop :=
  (relay.channel.watch.settlement? id).isSome = true

theorem unblocked_awaitWatch (watch : PendingWatch) : (awaitWatch watch).Unblocked (Settled watch.id) := by
  refine (Task.unblocked_act _).bind fun start => Task.Unblocked.bind ?_ fun settled => ?_
  · refine Task.unblocked_await fun relay hsettled => ?_
    obtain ⟨settlement, hsettlement⟩ := Option.isSome_iff_exists.mp hsettled
    simp only [watchState?, hsettlement, Option.isSome_some]
  · cases settled with
    | some settlement => trivial
    | none => exact (Task.unblocked_act _).bind fun _ => trivial

/-- A wait cannot be stuck once the watch is settled. -/
theorem unblocked_wait (watch : PendingWatch) : watch.wait.run.Unblocked (Settled watch.id) := by
  refine Task.unblocked_bind (Task.unblocked_lift (unblocked_awaitWatch watch)) fun result => ?_
  cases result <;> trivial

theorem unblocked_waitLocation (watch : PendingWatch) : watch.waitLocation.run.Unblocked (Settled watch.id) :=
  Task.unblocked_bind (unblocked_wait watch) fun _ => Task.unblocked_act _

/-- At a moment of a wait that was begun earlier, the watch was settled in this way, or there is time left. -/
def InTime (watch : PendingWatch) (settlement : Settlement) (begun relay : Relay) : Prop :=
  begun.clock ≤ relay.clock ∧
    (relay.channel.watch.settlement? watch.id = some settlement ∨
      relay.channel.watch.settlement? watch.id = none ∧ relay.clock < begun.clock + watch.limit)

/-- What a wait finds in time is how the watch was settled. -/
theorem InTime.watchState?_eq
    {watch : PendingWatch} {settlement : Settlement} {begun relay : Relay} (h : InTime watch settlement begun relay)
    {start : Nat} (hstart : begun.clock ≤ start)
    {found : Option Settlement} (hfound : relay.watchState? watch.id (start + watch.limit) = some found) :
    found = some settlement := by
  obtain ⟨-, hsettled | ⟨hnone, hearly⟩⟩ := h
  · simp only [watchState?, hsettled] at hfound
    exact (Option.some.inj hfound).symm
  · have hopen : ¬ start + watch.limit ≤ relay.clock :=
      (hearly.trans_le (Nat.add_le_add_right hstart _)).not_ge
    simp only [watchState?, hnone, if_neg hopen] at hfound
    cases hfound

theorem gives_awaitWatch (watch : PendingWatch) (settlement : Settlement) (begun : Relay) :
    (awaitWatch watch).Gives (InTime watch settlement begun) fun result => result = lineOf settlement := by
  have hclock : (Task.look Relay.clock).Gives (InTime watch settlement begun) fun start => begun.clock ≤ start :=
    Task.gives_act fun relay h => h.1
  refine Task.Gives.bind hclock ?_
  intro start hstart
  refine Task.Gives.bind (Task.gives_await fun relay found h hfound => h.watchState?_eq hstart hfound) ?_
  rintro found rfl
  exact rfl

/-- In time, a wait ends with the line that settled the watch. -/
theorem gives_wait (watch : PendingWatch) (line : String) (begun : Relay) :
    watch.wait.run.Gives (InTime watch (.answered (.matched line)) begun) fun result => result = .ok line := by
  have hawaited : (ExceptT.lift (awaitWatch watch) : Operation (Except WatchFailure String)).run.Gives
      (InTime watch (.answered (.matched line)) begun) fun result => result = .ok (.ok line) := by
    refine Task.Gives.bind (gives_awaitWatch watch _ begun) ?_
    rintro result rfl
    exact rfl
  refine Task.Gives.bind hawaited ?_
  rintro result rfl
  exact rfl

end Relay
end CompilerRelay
