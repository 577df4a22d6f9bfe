import CompilerRelay.Proofs.ServeNotes
import CompilerRelay.Proofs.StoreMirror

/-!
# Events on their way to the editor

The forwarder takes the events of the relay one by one.  It applies each to the store and queues its message in a later
step.  Meanwhile the loop takes snapshots of the store and queues answers.

**Input.**  Any run of the loop, finished or not, of a bridge that has taken nothing yet.  `Bridge.Noting` is such a run
with what was noted.

**Invariant.**  `Bridge.Accounted notes bridge`: the events that were taken are the first of the relay's, the store has
taken in just these, and the forwarder is at most one message behind.

**Results.**
* `Bridge.Accounted.notes`, `Bridge.Accounted.beside`: a step keeps the invariant.
* `Bridge.exists_noting`: every run of the loop is one of which something was noted, and it keeps the invariant.
* `Bridge.forwarding_law`: messages of events leave in order, and each snapshot is that of the events taken by then.
-/

namespace CompilerRelay
namespace Bridge

/-! ## What was noted -/

/-- The events that were taken. -/
def taken (notes : List Note) : List Event :=
  notes.filterMap Note.event?

/-- The messages of events that were queued. -/
def queued (notes : List Note) : List Message :=
  notes.filterMap Note.eventMessage?

/-- The messages of the events that were taken were queued, except perhaps that of the last. -/
def InStep (notes : List Note) : Prop :=
  queued notes = (taken notes).map Message.ofEvent ∨
    ∃ earlier last, taken notes = earlier ++ [last] ∧ queued notes = earlier.map Message.ofEvent

/-- What is true of a note, after those before it. -/
def Note.Holds (earlier : List Note) : Note → Prop
  | .looked snapshot => snapshot = (Store.ofEvents (taken earlier)).snapshot
  | .queued message => message.isReply = false
  | .answered message => message.isReply = true
  | .late message => message.isReply = true ∧ message.isSnapshot = false
  | .applied _ => True

@[simp] theorem taken_append (first second : List Note) : taken (first ++ second) = taken first ++ taken second :=
  List.filterMap_append

@[simp] theorem queued_append (first second : List Note) : queued (first ++ second) = queued first ++ queued second :=
  List.filterMap_append

/-- If every note holds, the messages that are no answers are those of events. -/
theorem filter_message?_eq_queued
    {notes : List Note} (h : AtEach Note.Holds notes) :
    (notes.filterMap Note.message?).filter (!·.isReply) = queued notes := by
  induction notes using List.reverseRecOn with
  | nil => rfl
  | append_singleton notes note ih =>
      obtain ⟨hnotes, hnote⟩ := atEach_append_singleton.mp h
      rw [List.filterMap_append, List.filter_append, ih hnotes, queued_append]
      cases note with
      | applied event => rfl
      | looked snapshot => rfl
      | queued message => simp [queued, Note.message?, Note.eventMessage?, show message.isReply = false from hnote]
      | answered message => simp [queued, Note.message?, Note.eventMessage?, show message.isReply = true from hnote]
      | late message => simp [queued, Note.message?, Note.eventMessage?, hnote.1]

/-! ## Beside the loop -/

/-- Each task that is to answer later is plain. -/
def PlainTasks (bridge : Bridge) : Prop :=
  ∀ task ∈ bridge.pending, Plain task

/-- What happens beside the loop is these notes. -/
inductive NotesBeside : Bridge → Bridge → List Note → Prop
  | unnoted {before after : Bridge} (hunnoted : before.Unnoted after) : NotesBeside before after []
  | applied {before : Bridge} {event : Event} (hlevel : before.applied = before.forwarded)
      (hevent : before.events[before.applied]? = some event) :
      NotesBeside before { before with store := before.store.apply event, applied := before.applied + 1 }
        [.applied event]
  | queued {before : Bridge} {event : Event} (hahead : before.applied ≠ before.forwarded)
      (hevent : before.events[before.forwarded]? = some event) :
      NotesBeside before { before.post (Message.ofEvent event) with forwarded := before.forwarded + 1 }
        [.queued (Message.ofEvent event)]
  | late {before : Bridge} {place : Nat} {message : Message} (hdone : before.pending[place]? = some (.done message)) :
      NotesBeside before { before.post message with pending := before.pending.eraseIdx place } [.late message]

theorem Plain.advance
    {task left : Task Relay Message} (h : Plain task) {before after : Relay}
    (htaken : task.advance? before = some (left, after)) :
    before.Evolves after ∧ Plain left :=
  ⟨(h.within_evolves.advance htaken).1, (h.within_evolves.advance htaken).2, h.yields.advance htaken⟩

/-- Whatever happens beside the loop is some notes. -/
theorem Changes.notes
    {before after : Bridge} (h : before.Changes after) (hplain : before.PlainTasks) :
    ∃ now, NotesBeside before after now := by
  cases h with
  | relay hchange =>
      obtain ⟨happening, -, rfl⟩ := hchange
      exact ⟨[], .unnoted (.of_evolves (.happens before.relay happening))⟩
  | arrive | close => exact ⟨[], .unnoted ⟨rfl, rfl, rfl, rfl, List.prefix_rfl, id⟩⟩
  | apply happlied =>
      obtain ⟨hlevel, event, hevent, rfl⟩ := applyEvent?_cases happlied
      exact ⟨_, .applied hlevel hevent⟩
  | forward hforwarded =>
      obtain ⟨hahead, event, hevent, rfl⟩ := forwardEvent?_cases hforwarded
      exact ⟨_, .queued hahead hevent⟩
  | answer place hanswer =>
      rcases answer?_cases hanswer with ⟨message, hdone, rfl⟩ | ⟨task, left, relay, htask, hadvance, rfl⟩
      · exact ⟨_, .late hdone⟩
      · obtain ⟨hevolves, hleft⟩ := (hplain task (List.mem_of_getElem? htask)).advance hadvance
        refine ⟨[], .unnoted ⟨rfl, rfl, rfl, rfl, hevolves.events_extend, fun hpending other hother => ?_⟩⟩
        rcases List.mem_or_eq_of_mem_set hother with hold | rfl
        · exact hpending other hold
        · exact hleft

/-! ## The invariant -/

/-- How many events were taken and how many messages of events were queued. -/
structure Counted (notes : List Note) (bridge : Bridge) : Prop where
  taken_eq : taken notes = bridge.events.take bridge.applied
  applied_le : bridge.applied ≤ bridge.events.length
  queued_eq : queued notes = (bridge.events.take bridge.forwarded).map Message.ofEvent
  forwarded_le : bridge.forwarded ≤ bridge.applied
  level : bridge.applied ≤ bridge.forwarded + 1

/-- What has become of a bridge that had taken nothing, after these notes. -/
structure Accounted (notes : List Note) (bridge : Bridge) : Prop extends Counted notes bridge where
  plain : bridge.PlainTasks
  store_eq : bridge.store = Store.ofEvents (taken notes)
  messages_eq : bridge.messages = notes.filterMap Note.message?
  holds : AtEach Note.Holds notes
  /-- It has been so at every moment. -/
  inStep : ∀ earlier later, notes = earlier ++ later → InStep earlier

theorem Counted.inStep
    {notes : List Note} {bridge : Bridge} (h : Counted notes bridge) :
    InStep notes := by
  rcases Nat.lt_or_eq_of_le h.forwarded_le with hbehind | hlevel
  · have happlied : bridge.applied = bridge.forwarded + 1 := Nat.le_antisymm h.level hbehind
    have hlength : bridge.forwarded < bridge.events.length := hbehind.trans_le h.applied_le
    refine Or.inr ⟨bridge.events.take bridge.forwarded, bridge.events[bridge.forwarded], ?_, h.queued_eq⟩
    rw [h.taken_eq, happlied, List.take_succ_eq_append_getElem hlength]
  · exact Or.inl (by rw [h.queued_eq, h.taken_eq, hlevel])

/-- Nothing was taken or sent, and nothing is to be answered later. -/
structure IsNew (bridge : Bridge) : Prop where
  store_eq : bridge.store = {}
  applied_eq : bridge.applied = 0
  forwarded_eq : bridge.forwarded = 0
  sent_eq : bridge.sent = []
  pending_eq : bridge.pending = []

theorem IsNew.accounted
    {bridge : Bridge} (h : bridge.IsNew) :
    Accounted [] bridge where
  taken_eq := by rw [h.applied_eq]; rfl
  applied_le := by rw [h.applied_eq]; exact Nat.zero_le _
  queued_eq := by rw [h.forwarded_eq]; rfl
  forwarded_le := by rw [h.forwarded_eq]; exact Nat.zero_le _
  level := by rw [h.applied_eq]; exact Nat.zero_le _
  plain := fun task hmem => by
    rw [h.pending_eq] at hmem
    cases hmem
  store_eq := h.store_eq
  messages_eq := by rw [messages, h.sent_eq]; rfl
  holds := fun front note back hsplit => by simp at hsplit
  inStep := fun earlier later hsplit => by
    obtain ⟨rfl, -⟩ := List.append_eq_nil_iff.mp hsplit.symm
    exact Or.inl rfl

namespace Accounted

variable {past : List Note} {before after : Bridge}

/-- A step that is not noted keeps the invariant. -/
theorem unnoted
    (h : Accounted past before) (hunnoted : before.Unnoted after) :
    Accounted past after := by
  obtain ⟨more, hmore⟩ := hunnoted.events_extend
  -- What was taken of the events is still what is taken of them.
  have htake {count : Nat} (hcount : count ≤ before.applied) : after.events.take count = before.events.take count := by
    rw [← hmore, List.take_append_of_le_length (hcount.trans h.applied_le)]
  exact {
    taken_eq := by rw [h.taken_eq, hunnoted.applied_eq, htake le_rfl]
    applied_le := by
      rw [hunnoted.applied_eq, ← hmore, List.length_append]
      exact h.applied_le.trans (Nat.le_add_right _ _)
    queued_eq := by rw [h.queued_eq, hunnoted.forwarded_eq, htake h.forwarded_le]
    forwarded_le := by rw [hunnoted.applied_eq, hunnoted.forwarded_eq]; exact h.forwarded_le
    level := by rw [hunnoted.applied_eq, hunnoted.forwarded_eq]; exact h.level
    plain := hunnoted.plain h.plain
    store_eq := hunnoted.store_eq.trans h.store_eq
    messages_eq := by rw [messages, hunnoted.sent_eq]; exact h.messages_eq
    holds := h.holds
    inStep := h.inStep }

/-- A step of which one thing is noted keeps the invariant if it counts right. -/
theorem noted
    (h : Accounted past before) {note : Note} (hcounted : Counted (past ++ [note]) after)
    (hplain : after.PlainTasks) (hstore : after.store = Store.ofEvents (taken (past ++ [note])))
    (hmessages : after.messages = before.messages ++ note.message?.toList) (hholds : Note.Holds past note) :
    Accounted (past ++ [note]) after where
  toCounted := hcounted
  plain := hplain
  store_eq := hstore
  messages_eq := by
    rw [hmessages, h.messages_eq, List.filterMap_append]
    cases hmessage : note.message? <;> simp [hmessage]
  holds := atEach_append_singleton.mpr ⟨h.holds, hholds⟩
  inStep := fun earlier later hsplit => by
    rcases List.eq_nil_or_concat' later with rfl | ⟨middle, last, rfl⟩
    · rw [List.append_nil] at hsplit
      rw [← hsplit]
      exact hcounted.inStep
    · rw [← List.append_assoc] at hsplit
      exact h.inStep earlier middle (List.append_inj' hsplit rfl).1

/-- What the loop and the tasks that answer do has no part in the counts. -/
theorem uncounted
    (h : Accounted past before) {note : Note} (htaken : note.event? = none) (hqueued : note.eventMessage? = none)
    (hsame : (after.events, after.store, after.applied, after.forwarded) =
      (before.events, before.store, before.applied, before.forwarded))
    (hplain : after.PlainTasks)
    (hmessages : after.messages = before.messages ++ note.message?.toList) (hholds : Note.Holds past note) :
    Accounted (past ++ [note]) after := by
  obtain ⟨hevents, hstore, happlied, hforwarded⟩ : after.events = before.events ∧ after.store = before.store ∧
      after.applied = before.applied ∧ after.forwarded = before.forwarded := by
    simpa only [Prod.mk.injEq] using hsame
  have htakenEq : taken (past ++ [note]) = taken past := by simp [taken, htaken]
  have hqueuedEq : queued (past ++ [note]) = queued past := by simp [queued, hqueued]
  refine h.noted ?_ hplain ?_ hmessages hholds
  · exact {
      taken_eq := by rw [htakenEq, hevents, happlied]; exact h.taken_eq
      applied_le := by rw [hevents, happlied]; exact h.applied_le
      queued_eq := by rw [hqueuedEq, hevents, hforwarded]; exact h.queued_eq
      forwarded_le := by rw [happlied, hforwarded]; exact h.forwarded_le
      level := by rw [happlied, hforwarded]; exact h.level }
  · rw [hstore, htakenEq]
    exact h.store_eq

/-- A step of the loop keeps the invariant. -/
theorem notes
    {now : List Note} (h : Accounted past before) (hnow : Notes before after now) :
    Accounted (past ++ now) after := by
  cases hnow with
  | unnoted hunnoted =>
      rw [List.append_nil]
      exact h.unnoted hunnoted
  | looked =>
      exact h.uncounted rfl rfl rfl h.plain (List.append_nil _).symm (congrArg Store.snapshot h.store_eq)
  | answered hreply => exact h.uncounted rfl rfl rfl h.plain (messages_post _ before) hreply

/-- The event that is taken next is the next of the relay's. -/
theorem takes
    (h : Accounted past before) {event : Event} (hlevel : before.applied = before.forwarded)
    (hevent : before.events[before.applied]? = some event) :
    Accounted (past ++ [.applied event])
      { before with store := before.store.apply event, applied := before.applied + 1 } := by
  obtain ⟨hlength, rfl⟩ := List.getElem?_eq_some_iff.mp hevent
  refine h.noted ?_ h.plain ?_ (List.append_nil _).symm trivial
  · exact {
      taken_eq := by
        change taken _ = before.events.take (before.applied + 1)
        rw [List.take_succ_eq_append_getElem hlength, taken_append, h.taken_eq]
        rfl
      applied_le := hlength
      queued_eq := by
        rw [queued_append, h.queued_eq]
        exact List.append_nil _
      forwarded_le := h.forwarded_le.trans (Nat.le_succ _)
      level := Nat.succ_le_succ hlevel.le }
  · rw [taken_append, h.store_eq]
    exact (Channel.ofEvents_append_singleton _ _).symm

/-- The message that is queued next is that of the event that was taken last. -/
theorem queues
    (h : Accounted past before) {event : Event} (hahead : before.applied ≠ before.forwarded)
    (hevent : before.events[before.forwarded]? = some event) :
    Accounted (past ++ [.queued (Message.ofEvent event)])
      { before.post (Message.ofEvent event) with forwarded := before.forwarded + 1 } := by
  obtain ⟨hlength, rfl⟩ := List.getElem?_eq_some_iff.mp hevent
  refine h.noted ?_ h.plain ?_ (messages_post _ before) ?_
  · exact {
      taken_eq := by
        rw [taken_append, h.taken_eq]
        exact List.append_nil _
      applied_le := h.applied_le
      queued_eq := by
        change queued _ = (before.events.take (before.forwarded + 1)).map Message.ofEvent
        rw [List.take_succ_eq_append_getElem hlength, List.map_append, queued_append, h.queued_eq]
        rfl
      forwarded_le := Nat.lt_of_le_of_ne h.forwarded_le hahead.symm
      level := h.level.trans (Nat.le_succ _) }
  · rw [taken_append]
    exact h.store_eq.trans (congrArg Store.ofEvents (List.append_nil _).symm)
  · cases before.events[before.forwarded] <;> rfl

/-- What happens beside the loop keeps the invariant. -/
theorem beside
    {now : List Note} (h : Accounted past before) (hnow : NotesBeside before after now) :
    Accounted (past ++ now) after := by
  cases hnow with
  | unnoted hunnoted =>
      rw [List.append_nil]
      exact h.unnoted hunnoted
  | applied hlevel hevent => exact h.takes hlevel hevent
  | queued hahead hevent => exact h.queues hahead hevent
  | late hdone =>
      have hplain : Plain (.done _) := h.plain _ (List.mem_of_getElem? hdone)
      exact h.uncounted rfl rfl rfl (fun task hmem => h.plain task (List.mem_of_mem_eraseIdx hmem))
        (messages_post _ before) hplain.yields

/-- What was queued as a snapshot, the loop answered. -/
theorem answered_mem
    {notes : List Note} {bridge : Bridge} (h : Accounted notes bridge)
    {message : Message} (hmem : message ∈ bridge.messages) (hsnapshot : message.isSnapshot = true) :
    .answered message ∈ notes := by
  rw [h.messages_eq, List.mem_filterMap] at hmem
  obtain ⟨note, hnote, hmessage⟩ := hmem
  obtain ⟨earlier, later, hsplit⟩ := List.append_of_mem hnote
  have hholds := h.holds earlier note later hsplit
  cases note with
  | applied event => cases hmessage
  | looked snapshot => cases hmessage
  | answered other =>
      obtain rfl := Option.some.inj hmessage
      exact hnote
  | queued other =>
      obtain rfl := Option.some.inj hmessage
      have hreply : other.isReply = false := hholds
      rw [Message.isReply_of_isSnapshot hsnapshot] at hreply
      cases hreply
  | late other =>
      obtain rfl := Option.some.inj hmessage
      rw [hholds.2] at hsnapshot
      cases hsnapshot

end Accounted

/-! ## Runs -/

/-- A run among what happens beside it, with what was noted. -/
inductive Noting {α : Type} : Task Bridge α → Bridge → List Note → Task Bridge α → Bridge → Prop
  | refl (task : Task Bridge α) (bridge : Bridge) : Noting task bridge [] task bridge
  | around {task left : Task Bridge α} {before between after : Bridge} {now later : List Note}
      (hchange : before.Changes between) (hnow : NotesBeside before between now)
      (hmore : Noting task between later left after) :
      Noting task before (now ++ later) left after
  | own {task next left : Task Bridge α} {before between after : Bridge} {now later : List Note}
      (htaken : task.advance? before = some (next, between)) (hnow : Notes before between now)
      (hmore : Noting next between later left after) :
      Noting task before (now ++ later) left after

/-- What was noted before is known, and what the task does fits what the loop noted. -/
theorem exists_noting
    {α : Type} {task left : Task Bridge α} {first last : Bridge}
    (hrun : Task.Moves Changes task first left last)
    {past : List Note} (hfirst : Accounted past first)
    {holds : List Note → α → Prop} (htask : task.Follows Notes (AtEach Note.Fits) (past.filter Note.isOwn) holds)
    (hpast : AtEach Note.Fits (past.filter Note.isOwn)) :
    ∃ notes, Noting task first notes left last ∧ Accounted (past ++ notes) last ∧
      AtEach Note.Fits ((past ++ notes).filter Note.isOwn) := by
  induction hrun generalizing past with
  | refl task bridge => exact ⟨[], .refl task bridge, by rwa [List.append_nil], by rwa [List.append_nil]⟩
  | around hchange _ ih =>
      obtain ⟨now, hnow⟩ := hchange.notes hfirst.plain
      have hown : (past ++ now).filter Note.isOwn = past.filter Note.isOwn := by
        rw [List.filter_append]
        cases hnow <;> exact List.append_nil _
      obtain ⟨later, hmore, hlast, hfits⟩ := ih (hfirst.beside hnow) (hown ▸ htask) (hown ▸ hpast)
      rw [List.append_assoc] at hlast hfits
      exact ⟨now ++ later, .around hchange hnow hmore, hlast, hfits⟩
  | own htaken _ ih =>
      obtain ⟨now, hnow, hnext, hleft⟩ := htask.advance htaken
      have hown : (past ++ now).filter Note.isOwn = past.filter Note.isOwn ++ now := by
        rw [List.filter_append]
        cases hnow <;> rfl
      obtain ⟨later, hmore, hlast, hfits⟩ := ih (hfirst.notes hnow) (hown ▸ hleft) (hown ▸ hnext)
      rw [List.append_assoc] at hlast hfits
      exact ⟨now ++ later, .own htaken hnow hmore, hlast, hfits⟩

/-- **Snapshots while events are forwarded.**  However the steps of the forwarder, of the loop, of the tasks that
answer, and of all else are interleaved, and wherever the loop has come to. -/
theorem forwarding_law
    {requests : Nat} {first last : Bridge} {left : Task Bridge (Except Utf8.Fault Unit)}
    (hrun : Task.Moves Changes (serve requests) first left last) (hnew : first.IsNew) :
    ∃ notes, Noting (serve requests) first notes left last ∧
      -- Every message was noted as it was queued.
      last.messages = notes.filterMap Note.message? ∧
      -- The events that were taken are the first that the relay emitted, in order.
      taken notes = last.events.take last.applied ∧
      -- The messages of events are those of just these, in order, at every moment but perhaps that of the last.
      last.messages.filter (!·.isReply) = queued notes ∧
      (∀ earlier later, notes = earlier ++ later → InStep earlier) ∧
      -- A snapshot is that of the events taken by then.
      (∀ earlier snapshot later, notes = earlier ++ .looked snapshot :: later →
        snapshot = (Store.ofEvents (taken earlier)).snapshot) ∧
      -- The next snapshot is that of the same events and of those taken in between.
      (∀ earlier one between two later, notes = earlier ++ .looked one :: (between ++ .looked two :: later) →
        two = (Store.ofEvents (taken earlier ++ taken between)).snapshot) ∧
      -- What is queued as a snapshot is the answer of the loop with the one that it took last.
      (∀ message ∈ last.messages, message.isSnapshot = true → .answered message ∈ notes) ∧
      (∀ earlier message later, notes = earlier ++ .answered message :: later → message.isSnapshot = true →
        ∃ id snapshot, (earlier.filter Note.isOwn).getLast? = some (.looked snapshot) ∧
          message = Message.ofSnapshot id snapshot) := by
  have hnone : AtEach Note.Fits [] := fun front note back hsplit => by simp at hsplit
  obtain ⟨notes, hnoting, haccounted, hfits⟩ :=
    exists_noting hrun hnew.accounted (serve_follows requests hnone) hnone
  rw [List.nil_append] at haccounted hfits
  have hlooked (earlier : List Note) (snapshot : Snapshot) (later : List Note)
      (hsplit : notes = earlier ++ .looked snapshot :: later) :
      snapshot = (Store.ofEvents (taken earlier)).snapshot :=
    haccounted.holds earlier _ later hsplit
  refine ⟨notes, hnoting, haccounted.messages_eq, haccounted.taken_eq, ?_, haccounted.inStep, hlooked, ?_,
    fun message => haccounted.answered_mem, ?_⟩
  · rw [haccounted.messages_eq]
    exact filter_message?_eq_queued haccounted.holds
  · intro earlier one between two later hsplit
    have htwo := hlooked (earlier ++ .looked one :: between) two later (by simp [hsplit])
    rw [htwo, taken_append]
    rfl
  · intro earlier message later hsplit hsnapshot
    have hown : notes.filter Note.isOwn =
        earlier.filter Note.isOwn ++ .answered message :: later.filter Note.isOwn := by
      rw [hsplit, List.filter_append]
      rfl
    exact hfits _ _ _ hown hsnapshot

namespace Overlap

/-- A file has an error. -/
def finding : Event :=
  .diagnostics ⟨"/p/a.cm"⟩ [{ severity := .error, message := "m", line := 1, column := 2 }]

/-- A bridge whose relay has told of the error, and to which a request came. -/
def fresh : Bridge where
  relay := (Relay.new {} {} ShutDown.machine {}).changeChannel (·.emit finding)
  input := Utf8.encode "\x7b\"command\":\"diagnostics\",\"id\":7\x7d\n"

/-- The bridge when the error is in the store and its message not queued. -/
def ahead : Bridge :=
  fresh.applyEvent?.getD fresh

/-- The bridge after it answered the request then. -/
def answered : Bridge :=
  ((serve 2).steps? 3 ahead).elim ahead Prod.snd

theorem forwarding_law_overlap :
    ∃ left notes, Noting (serve 2) fresh notes left answered ∧ taken notes = [finding] ∧ queued notes = [] ∧
      answered.messages.map Message.isSnapshot = [true] := by
  have happlied : fresh.applyEvent? = some ahead := by
    have hsome : fresh.applyEvent?.isSome = true := by decide +kernel
    obtain ⟨after, hafter⟩ := Option.isSome_iff_exists.mp hsome
    simp [ahead, hafter]
  have hsteps : ((serve 2).steps? 3 ahead).isSome = true := by decide +kernel
  obtain ⟨⟨left, after⟩, hleft⟩ := Option.isSome_iff_exists.mp hsteps
  have hanswered : answered = after := by simp [answered, hleft]
  rw [← hanswered] at hleft
  obtain ⟨notes, hnoting, -, htaken, hqueued, -⟩ :=
    forwarding_law (.around (.apply happlied) (Task.moves_of_steps? hleft)) ⟨rfl, rfl, rfl, rfl, rfl⟩
  have hevents : answered.events.take answered.applied = [finding] := by decide +kernel
  have hmessages : answered.messages.filter (!·.isReply) = [] := by decide +kernel
  have hsnapshots : answered.messages.map Message.isSnapshot = [true] := by decide +kernel
  exact ⟨left, notes, hnoting, htaken.trans hevents, hqueued.symm.trans hmessages, hsnapshots⟩

end Overlap
end Bridge
end CompilerRelay
