import CompilerRelay.Proofs.InputLines
import CompilerRelay.Proofs.ServeLoop
import Mathlib.Data.List.ReduceOption

/-!
# One answer for each request

Answers are sent by the loop and by tasks of their own, in any order among all else that happens.

**Input.**  A run of the loop up to its end.  `Bridge.Serving` notes the bytes that came in meanwhile and the messages
that the loop itself sent.

**Invariant.**  `Bridge.Books bridge ids`: these are the numbers of the answers that were sent and of those that tasks
are still to give.  Whatever goes on beside the loop leaves the books as they are, and each deed of the loop enters at
most one number.

**Results.**
* `Bridge.Changes.books`, `Bridge.Does.books`: what a step does to the books.
* `Bridge.Serving.chronicle`: what a run does to them, and to the lines of the input.
* `Bridge.replies_law`: in the end each line that asks for something has one answer.
-/

namespace CompilerRelay

namespace Deed

/-- The number that a deed enters into the books. -/
def opens : Deed → List (Option Nat)
  | .reply message => [message.id?]
  | .later id => [id]
  | .read _ | .ended | .settled => []

/-- The message that a deed sends. -/
def message? : Deed → Option Message
  | .reply message => some message
  | .read _ | .ended | .later _ | .settled => none

/-- The line that a deed reads. -/
def line? : Deed → Option Bytes
  | .read line => some line
  | .ended | .reply _ | .later _ | .settled => none

end Deed

namespace Bridge

/-- The answers that were sent, in order. -/
def replies (bridge : Bridge) : List Message :=
  bridge.messages.filter Message.isReply

/-- These are the numbers of the answers that were sent and of those that tasks are still to give. -/
def Books (bridge : Bridge) (ids : List (Option Nat)) : Prop :=
  ∃ owed : List (Task Relay Message × Option Nat),
    owed.map Prod.fst = bridge.pending ∧
    (∀ entry ∈ owed, Owes entry.1 entry.2) ∧
    (bridge.replies.map Message.id? ++ owed.map Prod.snd).Perm ids

/-! ## What goes on beside the loop -/

section Around

variable {before after : Bridge} {ids : List (Option Nat)}

/-- A task among those that answer takes a step, or its answer is sent. -/
theorem answer?_cases
    {place : Nat} (hanswer : before.answer? place = some after) :
    (∃ message, before.pending[place]? = some (.done message) ∧
      after = { before.post message with pending := before.pending.eraseIdx place }) ∨
    (∃ task left relay, before.pending[place]? = some task ∧ task.advance? before.relay = some (left, relay) ∧
      after = { before with relay, pending := before.pending.set place left }) := by
  unfold answer? at hanswer
  cases htask : before.pending[place]? with
  | none => simp [htask] at hanswer
  | some task =>
      cases task with
      | done message =>
          simp only [htask, Option.some.injEq] at hanswer
          exact Or.inl ⟨message, rfl, hanswer.symm⟩
      | step ready next rest =>
          simp only [htask, Option.map_eq_some_iff] at hanswer
          obtain ⟨⟨left, relay⟩, hadvance, rfl⟩ := hanswer
          exact Or.inr ⟨_, left, relay, rfl, hadvance, rfl⟩

theorem applyEvent?_cases
    (happlied : before.applyEvent? = some after) :
    before.applied = before.forwarded ∧ ∃ event, before.events[before.applied]? = some event ∧
      after = { before with store := before.store.apply event, applied := before.applied + 1 } := by
  unfold applyEvent? at happlied
  split at happlied
  · next hnext =>
      obtain ⟨event, hevent, rfl⟩ := Option.map_eq_some_iff.mp happlied
      exact ⟨by simpa using (Bool.and_eq_true_iff.mp hnext).2, event, hevent, rfl⟩
  · cases happlied

theorem applyEvent?_eq
    (happlied : before.applyEvent? = some after) :
    ∃ event, after = { before with store := before.store.apply event, applied := before.applied + 1 } := by
  obtain ⟨-, event, -, hafter⟩ := applyEvent?_cases happlied
  exact ⟨event, hafter⟩

theorem forwardEvent?_cases
    (hforwarded : before.forwardEvent? = some after) :
    before.applied ≠ before.forwarded ∧ ∃ event, before.events[before.forwarded]? = some event ∧
      after = { before.post (Message.ofEvent event) with forwarded := before.forwarded + 1 } := by
  unfold forwardEvent? at hforwarded
  split at hforwarded
  · next hnext =>
      obtain ⟨event, hevent, rfl⟩ := Option.map_eq_some_iff.mp hforwarded
      exact ⟨by simpa using (Bool.and_eq_true_iff.mp hnext).2, event, hevent, rfl⟩
  · cases hforwarded

theorem forwardEvent?_eq
    (hforwarded : before.forwardEvent? = some after) :
    ∃ event, after = { before.post (Message.ofEvent event) with forwarded := before.forwarded + 1 } := by
  obtain ⟨-, event, -, hafter⟩ := forwardEvent?_cases hforwarded
  exact ⟨event, hafter⟩

theorem replies_post_of_isReply
    (bridge : Bridge) {message : Message} (hreply : message.isReply = true) :
    (bridge.post message).replies = bridge.replies ++ [message] := by
  rw [replies, messages_post, List.filter_append]
  simp [replies, hreply]

theorem replies_post_ofEvent (bridge : Bridge) (event : Event) :
    (bridge.post (Message.ofEvent event)).replies = bridge.replies := by
  have hevent : (Message.ofEvent event).isReply = false := by cases event <;> rfl
  rw [replies, messages_post, List.filter_append]
  simp [replies, hevent]

theorem Books.of_eq
    (h : before.Books ids) (hreplies : after.replies = before.replies) (hpending : after.pending = before.pending) :
    after.Books ids := by
  unfold Books
  rw [hreplies, hpending]
  exact h

/-- A task that has its answer sends it, and is no longer to answer. -/
theorem Books.answered
    (h : before.Books ids) {place : Nat} {message : Message}
    (hdone : before.pending[place]? = some (.done message)) :
    Books { before.post message with pending := before.pending.eraseIdx place } ids := by
  obtain ⟨owed, hpending, howes, hperm⟩ := h
  -- The task that is done is one of those that owe an answer.
  rw [← hpending, List.getElem?_map, Option.map_eq_some_iff] at hdone
  obtain ⟨⟨task, id⟩, hentry, rfl⟩ := hdone
  obtain ⟨hplace, hthere⟩ := List.getElem?_eq_some_iff.mp hentry
  have hreply : ReplyTo id message := howes _ (List.mem_of_getElem? hentry)
  refine ⟨owed.eraseIdx place, ?_, fun entry hmem => howes entry (List.mem_of_mem_eraseIdx hmem), ?_⟩
  · rw [← hpending, List.eraseIdx_map]
  · have hsent : Bridge.replies { before.post message with pending := before.pending.eraseIdx place } =
        before.replies ++ [message] := replies_post_of_isReply before hreply.isReply
    have howed : (id :: (owed.eraseIdx place).map Prod.snd).Perm (owed.map Prod.snd) := by
      have hcons := (List.getElem_cons_eraseIdx_perm hplace).map Prod.snd
      rwa [hthere, List.map_cons] at hcons
    rw [hsent, List.map_append, List.append_assoc, List.map_singleton, hreply.id?_eq]
    exact ((howed.append_left _).trans hperm)

/-- A task that takes a step is to give the same answer as before. -/
theorem Books.advanced
    (h : before.Books ids) {place : Nat} {task left : Task Relay Message} {relay : Relay}
    (htask : before.pending[place]? = some task) (hadvance : task.advance? before.relay = some (left, relay)) :
    Books { before with relay, pending := before.pending.set place left } ids := by
  obtain ⟨owed, hpending, howes, hperm⟩ := h
  rw [← hpending, List.getElem?_map, Option.map_eq_some_iff] at htask
  obtain ⟨⟨_, id⟩, hentry, rfl⟩ := htask
  obtain ⟨hplace, hthere⟩ := List.getElem?_eq_some_iff.mp hentry
  have hleft : Owes left id := (howes _ (List.mem_of_getElem? hentry)).advance hadvance
  have hids : (owed.set place (left, id)).map Prod.snd = owed.map Prod.snd := by
    have hlength : place < (owed.map Prod.snd).length := by simpa using hplace
    have hid : (owed.map Prod.snd)[place] = id := by simp [hthere]
    conv_rhs => rw [← List.set_getElem_self hlength, hid]
    rw [List.map_set]
  refine ⟨owed.set place (left, id), by rw [List.map_set, hpending], ?_, ?_⟩
  · intro entry hmem
    rcases List.mem_or_eq_of_mem_set hmem with hold | rfl
    · exact howes entry hold
    · exact hleft
  · rw [hids]
    exact hperm

/-- Whatever goes on beside the loop leaves the books as they are. -/
theorem Changes.books
    (h : before.Changes after) (hbooks : before.Books ids) :
    after.Books ids := by
  cases h with
  | relay => exact hbooks
  | arrive => exact hbooks
  | close => exact hbooks
  | apply happlied =>
      obtain ⟨event, rfl⟩ := applyEvent?_eq happlied
      exact hbooks
  | forward hforwarded =>
      obtain ⟨event, rfl⟩ := forwardEvent?_eq hforwarded
      exact hbooks.of_eq (replies_post_ofEvent before event) rfl
  | answer place hanswer =>
      rcases answer?_cases hanswer with ⟨message, hdone, rfl⟩ | ⟨task, left, relay, htask, hadvance, rfl⟩
      · exact hbooks.answered hdone
      · exact hbooks.advanced htask hadvance

/-- Beside the loop messages are only sent, and no task is to answer that was not before. -/
theorem Changes.grows
    (h : before.Changes after) :
    (∃ new, after.messages = before.messages ++ new) ∧ (before.pending = [] → after.pending = []) := by
  cases h with
  | relay => exact ⟨⟨[], (List.append_nil _).symm⟩, id⟩
  | arrive => exact ⟨⟨[], (List.append_nil _).symm⟩, id⟩
  | close => exact ⟨⟨[], (List.append_nil _).symm⟩, id⟩
  | apply happlied =>
      obtain ⟨event, rfl⟩ := applyEvent?_eq happlied
      exact ⟨⟨[], (List.append_nil _).symm⟩, id⟩
  | forward hforwarded =>
      obtain ⟨event, rfl⟩ := forwardEvent?_eq hforwarded
      exact ⟨⟨[Message.ofEvent event], messages_post _ before⟩, id⟩
  | answer place hanswer =>
      rcases answer?_cases hanswer with ⟨message, hdone, rfl⟩ | ⟨task, left, relay, htask, hadvance, rfl⟩
      · exact ⟨⟨[message], messages_post message before⟩, fun hnone => by simp [hnone] at hdone⟩
      · exact ⟨⟨[], (List.append_nil _).symm⟩, fun hnone => by simp [hnone] at htask⟩

/-- Beside the loop input only arrives, and none after it was closed. -/
theorem Changes.arrives
    (h : before.Changes after) :
    (∃ bytes, after.input = before.input ++ bytes) ∧
    (before.inputClosed = true → after.inputClosed = true ∧ after.input = before.input) := by
  have hsame {bridge other : Bridge} (hinput : other.input = bridge.input)
      (hclosed : other.inputClosed = bridge.inputClosed) :
      (∃ bytes, other.input = bridge.input ++ bytes) ∧
        (bridge.inputClosed = true → other.inputClosed = true ∧ other.input = bridge.input) :=
    ⟨⟨[], by rw [hinput, List.append_nil]⟩, fun h => ⟨hclosed.trans h, hinput⟩⟩
  cases h with
  | relay => exact hsame rfl rfl
  | close => exact ⟨⟨[], (List.append_nil _).symm⟩, fun _ => ⟨rfl, rfl⟩⟩
  | arrive bytes hopen =>
      refine ⟨⟨bytes, rfl⟩, fun hclosed => ?_⟩
      rw [hopen] at hclosed
      cases hclosed
  | apply happlied =>
      obtain ⟨event, rfl⟩ := applyEvent?_eq happlied
      exact hsame rfl rfl
  | forward hforwarded =>
      obtain ⟨event, rfl⟩ := forwardEvent?_eq hforwarded
      exact hsame rfl rfl
  | answer place hanswer =>
      rcases answer?_cases hanswer with ⟨message, -, rfl⟩ | ⟨task, left, relay, -, -, rfl⟩
      · exact hsame rfl rfl
      · exact hsame rfl rfl

end Around

/-! ## Deeds of the loop -/

section Deeds

variable {before after : Bridge} {deeds : List Deed} {ids : List (Option Nat)}

/-- A deed sends its message, and nothing else is sent in a step of the loop. -/
theorem Does.messages
    (h : Does before after deeds) :
    after.messages = before.messages ++ deeds.filterMap Deed.message? := by
  cases h with
  | quiet hquiet =>
      rw [Bridge.messages, hquiet.sent_eq]
      exact (List.append_nil _).symm
  | reply => exact messages_post _ before
  | read | ended | later | settled => exact (List.append_nil _).symm

theorem Does.books
    (h : Does before after deeds) (hbooks : before.Books ids) :
    after.Books (ids ++ deeds.flatMap Deed.opens) := by
  have hnone {other : Bridge} (hsame : other.Books ids) : other.Books (ids ++ []) := by
    rwa [List.append_nil]
  cases h with
  | quiet hquiet =>
      have hreplies : after.replies = before.replies := by
        rw [replies, Bridge.messages, hquiet.sent_eq]
        rfl
      exact hnone (hbooks.of_eq hreplies hquiet.pending_eq)
  | read | ended | settled => exact hnone hbooks
  | @reply message hreply =>
      obtain ⟨owed, hpending, howes, hperm⟩ := hbooks
      refine ⟨owed, hpending, howes, ?_⟩
      rw [replies_post_of_isReply before hreply, List.map_append, List.append_assoc]
      have hmoved : (before.replies.map Message.id? ++ ([message].map Message.id? ++ owed.map Prod.snd)).Perm
          (before.replies.map Message.id? ++ (owed.map Prod.snd ++ [message.id?])) :=
        List.perm_append_comm.append_left _
      rw [← List.append_assoc _ (owed.map Prod.snd)] at hmoved
      exact hmoved.trans (hperm.append_right _)
  | @later task id howed =>
      obtain ⟨owed, hpending, howes, hperm⟩ := hbooks
      refine ⟨owed ++ [(task, id)], by simp [hpending], ?_, ?_⟩
      · intro entry hmem
        rcases List.mem_append.mp hmem with hold | hnew
        · exact howes entry hold
        · rw [List.mem_singleton.mp hnew]
          exact howed
      · rw [List.map_append, ← List.append_assoc]
        exact hperm.append_right _

end Deeds

/-! ## Runs -/

/-- A run among what goes on beside it, with the bytes that came in and the messages that the task itself sent. -/
inductive Serving {α : Type} : Task Bridge α → Bridge → Bytes → List Message → Task Bridge α → Bridge → Prop
  | refl (task : Task Bridge α) (bridge : Bridge) : Serving task bridge [] [] task bridge
  | around {task left : Task Bridge α} {before between after : Bridge} {bytes more : Bytes} {said : List Message}
      (hchange : before.Changes between) (hbytes : between.input = before.input ++ bytes)
      (hmore : Serving task between more said left after) :
      Serving task before (bytes ++ more) said left after
  | own {task next left : Task Bridge α} {before between after : Bridge} {bytes : Bytes} {now said : List Message}
      (htaken : task.advance? before = some (next, between))
      (hsaid : between.messages = before.messages ++ now)
      (hmore : Serving next between bytes said left after) :
      Serving task before bytes (now ++ said) left after

/-- What becomes of a task after so many steps, if the first of the tasks that answer goes on while it has to wait. -/
def attend {α : Type} : Nat → Task Bridge α → Bridge → Task Bridge α × Bridge
  | 0, task, bridge => (task, bridge)
  | count + 1, task, bridge =>
      match task.advance? bridge with
      | some (left, after) => attend count left after
      | none =>
          match bridge.answer? 0 with
          | some after => attend count task after
          | none => (task, bridge)

/-- That is one of the runs in which nothing comes in. -/
theorem exists_serving_attend
    {α : Type} (count : Nat) (task : Task Bridge α) (bridge : Bridge)
    {holds : List Deed → α → Prop} (htask : task.Emits Does holds) :
    ∃ said, Serving task bridge [] said (attend count task bridge).1 (attend count task bridge).2 := by
  induction count generalizing task bridge holds with
  | zero => exact ⟨[], .refl task bridge⟩
  | succ count ih =>
      unfold attend
      split
      · next left after htaken =>
          obtain ⟨deeds, hdoes, hleft⟩ := htask.advance htaken
          obtain ⟨said, hmore⟩ := ih left after hleft
          exact ⟨_, .own htaken hdoes.messages hmore⟩
      · split
        · next after hanswer =>
            obtain ⟨said, hmore⟩ := ih task after htask
            have hinput : after.input = bridge.input ++ [] := by
              rcases answer?_cases hanswer with ⟨message, -, rfl⟩ | ⟨other, left, relay, -, -, rfl⟩
              · exact (List.append_nil _).symm
              · exact (List.append_nil _).symm
            have hserving := Serving.around (.answer 0 hanswer) hinput hmore
            exact ⟨said, hserving⟩
        · exact ⟨[], .refl task bridge⟩

/-- What has become of a bridge after these bytes came in and the loop did these deeds. -/
structure Chronicle (first : Bridge) (bytes : Bytes) (deeds : List Deed) (bridge : Bridge) : Prop where
  books : ∀ ids, first.Books ids → bridge.Books (ids ++ deeds.flatMap Deed.opens)
  messages : ∃ new, bridge.messages = first.messages ++ new ∧ (deeds.filterMap Deed.message?).Sublist new
  /-- The lines that were read and those that are left are the lines of all that came, whatever may come yet. -/
  lines : ∀ later, (bridge.inputClosed = true → later = []) →
    linesOf (first.input ++ bytes ++ later) = deeds.filterMap Deed.line? ++ linesOf (bridge.input ++ later)
  ended : Deed.ended ∈ deeds → bridge.inputClosed = true ∧ bridge.input = []
  settled : deeds.getLast? = some .settled → bridge.pending = []

namespace Chronicle

variable {first bridge after : Bridge} {bytes more : Bytes} {deeds now : List Deed}

theorem start (first : Bridge) : Chronicle first [] [] first where
  books := fun ids h => by simpa using h
  messages := ⟨[], by simp, .slnil⟩
  lines := fun later _ => by simp
  ended := fun h => by cases h
  settled := fun h => by cases h

theorem changes
    (h : Chronicle first bytes deeds bridge)
    (hchange : bridge.Changes after) (hbytes : after.input = bridge.input ++ more) :
    Chronicle first (bytes ++ more) deeds after where
  books := fun ids hids => hchange.books (h.books ids hids)
  messages := by
    obtain ⟨new, hnew, hsaid⟩ := h.messages
    obtain ⟨others, hothers⟩ := hchange.grows.1
    exact ⟨new ++ others, by rw [hothers, hnew, List.append_assoc], hsaid.trans (List.sublist_append_left _ _)⟩
  lines := fun later hlater => by
    -- What arrives now was yet to come before.
    have hclosed : bridge.inputClosed = true → more ++ later = [] := by
      intro hbefore
      obtain ⟨hafter, hinput⟩ := hchange.arrives.2 hbefore
      have hnone : more = [] := by simpa [hbytes] using hinput
      rw [hnone, hlater hafter, List.append_nil]
    have hlines := h.lines (more ++ later) hclosed
    rwa [← List.append_assoc, ← List.append_assoc, ← hbytes, List.append_assoc first.input] at hlines
  ended := fun hended => by
    obtain ⟨hclosed, hinput⟩ := h.ended hended
    obtain ⟨hafter, hsame⟩ := hchange.arrives.2 hclosed
    exact ⟨hafter, hsame.trans hinput⟩
  settled := fun hlast => hchange.grows.2 (h.settled hlast)

/-- What the deed of a step does to the lines that are left. -/
theorem lines_of_does
    (hdoes : Does bridge after now) {later : Bytes} (hlater : after.inputClosed = true → later = []) :
    linesOf (bridge.input ++ later) = now.filterMap Deed.line? ++ linesOf (after.input ++ later) := by
  cases hdoes with
  | quiet hquiet =>
      rw [hquiet.input_eq]
      rfl
  | reply | later | settled => rfl
  | ended hcut =>
      obtain ⟨-, hinput, rfl⟩ := cutLine?_none hcut
      rw [hinput]
      rfl
  | @read line rest hcut =>
      rcases cutLine?_some hcut with ⟨run, rfl, hrun, hinput⟩ | ⟨hclosed, hline, rfl, hlines⟩
      · rw [hinput, List.append_assoc (run ++ [LineBuffer.newline]), linesOf_newline hrun]
        rfl
      · obtain rfl : later = [] := hlater hclosed
        rw [List.append_nil, hlines, ← hline]
        rfl

theorem does
    (h : Chronicle first bytes deeds bridge)
    (hdoes : Does bridge after now) :
    Chronicle first bytes (deeds ++ now) after where
  books := fun ids hids => by
    rw [List.flatMap_append, ← List.append_assoc]
    exact hdoes.books (h.books ids hids)
  messages := by
    obtain ⟨new, hnew, hsaid⟩ := h.messages
    refine ⟨new ++ now.filterMap Deed.message?, by rw [hdoes.messages, hnew, List.append_assoc], ?_⟩
    rw [List.filterMap_append]
    exact hsaid.append_right _
  lines := fun later hlater => by
    have hclosed : bridge.inputClosed = true → later = [] := by
      intro hbefore
      refine hlater ?_
      cases hdoes with
      | quiet hquiet => exact hquiet.inputClosed_eq.trans hbefore
      | read | ended | reply | later | settled => exact hbefore
    rw [h.lines later hclosed, lines_of_does hdoes hlater, List.filterMap_append, List.append_assoc]
  ended := fun hended => by
    rcases List.mem_append.mp hended with hbefore | hnow
    · obtain ⟨hclosed, hinput⟩ := h.ended hbefore
      cases hdoes with
      | quiet hquiet => exact ⟨hquiet.inputClosed_eq.trans hclosed, hquiet.input_eq.trans hinput⟩
      | reply | later | settled => exact ⟨hclosed, hinput⟩
      | ended hcut => exact ⟨hclosed, (cutLine?_none hcut).2.2⟩
      | read hcut =>
          -- Nothing is left that could be read.
          rcases cutLine?_some hcut with ⟨run, rfl, -, hsome⟩ | ⟨-, -, -, hlines⟩
          · simp [hinput] at hsome
          · simp [hinput] at hlines
    · cases hdoes with
      | ended hcut => exact ⟨(cutLine?_none hcut).1, (cutLine?_none hcut).2.2⟩
      | quiet | read | reply | later | settled => simp at hnow
  settled := fun hlast => by
    cases hdoes with
    | settled hpending => exact hpending
    | quiet hquiet =>
        rw [List.append_nil] at hlast
        exact hquiet.pending_eq.trans (h.settled hlast)
    | read | ended | reply | later => simp at hlast

end Chronicle

/-- The chronicle of a run goes on with what arrived and with the deeds of the task. -/
theorem Serving.chronicle
    {α : Type} {task left : Task Bridge α} {before after : Bridge} {bytes : Bytes} {said : List Message}
    (hrun : Serving task before bytes said left after)
    {holds : List Deed → α → Prop} (htask : task.Emits Does holds)
    {first : Bridge} {earlier : Bytes} {deeds : List Deed} (hbefore : Chronicle first earlier deeds before) :
    ∃ now, said = now.filterMap Deed.message? ∧
      Chronicle first (earlier ++ bytes) (deeds ++ now) after ∧
      left.Emits Does fun later value => holds (now ++ later) value := by
  -- The induction is on the run; what it has brought so far is carried in the chronicle.
  induction hrun generalizing holds earlier deeds with
  | refl task bridge => exact ⟨[], rfl, by simpa using hbefore, htask⟩
  | @around task left before between after bytes more said hchange hbytes _ ih =>
      obtain ⟨now, hsaid, hafter, hleft⟩ := ih htask (hbefore.changes hchange hbytes)
      exact ⟨now, hsaid, by rwa [List.append_assoc] at hafter, hleft⟩
  | @own task next left before between after bytes now said htaken hnow _ ih =>
      obtain ⟨first, hdoes, hnext⟩ := htask.advance htaken
      obtain ⟨later, hsaid, hafter, hleft⟩ := ih hnext (hbefore.does hdoes)
      have hfirst : now = first.filterMap Deed.message? :=
        List.append_cancel_left (hnow.symm.trans hdoes.messages)
      refine ⟨first ++ later, by rw [hfirst, hsaid, List.filterMap_append], ?_, ?_⟩
      · rwa [List.append_assoc] at hafter
      · simpa only [List.append_assoc] using hleft

/-! ## Accounts -/

/-- The lines that ask for something, up to the first that asks to shut down. -/
def asked : List String → List String
  | [] => []
  | line :: rest =>
      if isBlankLine line then asked rest
      else if asksShutdown line then [line]
      else line :: asked rest

/-- What the loop itself answered to a line, or that it left the answer to a task. -/
def AnsweredBy (line : String) : Option Message → Prop
  | some message => ReplyTo (numberOf line) message
  | none => mayWait line = true

/-- The lines whose answers were left to tasks. -/
def leftToTasks : List String → List (Option Message) → List String
  | line :: lines, none :: answers => line :: leftToTasks lines answers
  | _ :: lines, some _ :: answers => leftToTasks lines answers
  | [], _ => []
  | _, [] => []

/-- A line that was read and taken care of is one line, enters its number, and has an answer or is left to a task. -/
theorem TakesCare.exists_answer
    {text : String} {deed : Deed} (h : TakesCare text deed) (line : Bytes) :
    ∃ answer, AnsweredBy text answer ∧ ∀ deeds,
      (Deed.read line :: deed :: deeds).filterMap Deed.line? = line :: deeds.filterMap Deed.line? ∧
      (Deed.read line :: deed :: deeds).flatMap Deed.opens = numberOf text :: deeds.flatMap Deed.opens ∧
      (Deed.read line :: deed :: deeds).filterMap Deed.message? =
        answer.toList ++ deeds.filterMap Deed.message? := by
  cases h with
  | @reply message hreply =>
      refine ⟨some message, hreply, fun deeds => ⟨rfl, ?_, rfl⟩⟩
      rw [← hreply.id?_eq]
      rfl
  | later hwait => exact ⟨none, hwait, fun deeds => ⟨rfl, rfl, rfl⟩⟩

theorem reduceOption_cons (answer : Option Message) (answers : List (Option Message)) :
    (answer :: answers).reduceOption = answer.toList ++ answers.reduceOption := by
  cases answer <;> rfl

theorem isReply_of_mem
    {lines : List String} {answers : List (Option Message)} (h : List.Forall₂ AnsweredBy lines answers)
    {message : Message} (hmem : message ∈ answers.reduceOption) :
    message.isReply = true := by
  induction h with
  | nil => cases hmem
  | @cons line answer lines answers hanswer _ ih =>
      rw [reduceOption_cons, List.mem_append] at hmem
      rcases hmem with hfirst | hrest
      · obtain rfl := Option.mem_toList.mp hfirst
        exact ReplyTo.isReply hanswer
      · exact ih hrest

/-- A line that was read is the first of the texts. -/
theorem exists_texts_of_cons
    {line : Bytes} {lines : List Bytes} {text : String} {texts : List String}
    (hlines : (line :: lines).map lineText = texts.map .ok) (htext : lineText line = .ok text) :
    ∃ more, texts = text :: more ∧ lines.map lineText = more.map .ok := by
  cases texts with
  | nil => cases hlines
  | cons other more =>
      obtain ⟨hfirst, hmore⟩ := List.cons.inj hlines
      obtain rfl : text = other := Except.ok.inj (htext.symm.trans hfirst)
      exact ⟨more, rfl, hmore⟩

/-- What a conversation amounts to, if all lines are texts and there are not too many. -/
theorem Conversation.accounts
    {requests : Nat} {deeds : List Deed} {result : Except Utf8.Fault Unit}
    (h : Conversation requests deeds result) {rest : List Bytes} {texts : List String}
    (hlines : (deeds.filterMap Deed.line? ++ rest).map lineText = texts.map .ok)
    (hended : Deed.ended ∈ deeds → rest = []) (hrequests : texts.length < requests) :
    result = .ok () ∧ deeds.getLast? = some .settled ∧
      deeds.flatMap Deed.opens = (asked texts).map numberOf ∧
      ∃ answers, List.Forall₂ AnsweredBy (asked texts) answers ∧
        deeds.filterMap Deed.message? = answers.reduceOption := by
  induction h generalizing texts with
  | spent => simp at hrequests
  | ended requests =>
      obtain rfl := hended (by simp)
      obtain rfl : texts = [] := List.map_eq_nil_iff.mp hlines.symm
      exact ⟨rfl, rfl, rfl, [], .nil, rfl⟩
  | @notText requests line fault htext =>
      cases texts with
      | nil => cases hlines
      | cons text more =>
          have hfirst : lineText line = .ok text := (List.cons.inj hlines).1
          rw [htext] at hfirst
          cases hfirst
  | @blank requests line text deeds result htext hblank _ ih =>
      have hcons : (line :: (deeds.filterMap Deed.line? ++ rest)).map lineText = texts.map .ok := hlines
      obtain ⟨more, rfl, hmore⟩ := exists_texts_of_cons hcons htext
      have hasked : asked (text :: more) = asked more := by simp [asked, hblank]
      rw [hasked]
      obtain ⟨hresult, hlast, hopens, hanswers⟩ :=
        ih hmore (fun hmem => hended (List.mem_cons_of_mem _ hmem)) (by simpa using hrequests)
      refine ⟨hresult, ?_, hopens, hanswers⟩
      rw [List.getLast?_cons, hlast]
      rfl
  | @shutdown requests line text deed htext hspoken hshutdown hcare =>
      obtain ⟨answer, hanswer, hdeeds⟩ := hcare.exists_answer line
      obtain ⟨hread, hopens, hsaid⟩ := hdeeds [.settled]
      rw [hread] at hlines
      obtain ⟨more, rfl, -⟩ := exists_texts_of_cons hlines htext
      have hasked : asked (text :: more) = [text] := by simp [asked, hspoken, hshutdown]
      rw [hasked]
      refine ⟨rfl, rfl, hopens, [answer], .cons hanswer .nil, ?_⟩
      rw [hsaid, reduceOption_cons]
      rfl
  | @request requests line text deed deeds result htext hspoken hopen hcare _ ih =>
      obtain ⟨answer, hanswer, hdeeds⟩ := hcare.exists_answer line
      obtain ⟨hread, hopens, hsaid⟩ := hdeeds deeds
      rw [hread] at hlines
      obtain ⟨more, rfl, hmore⟩ := exists_texts_of_cons hlines htext
      have hasked : asked (text :: more) = text :: asked more := by simp [asked, hspoken, hopen]
      rw [hasked]
      obtain ⟨hresult, hlast, hids, answers, hanswers, hrest⟩ := ih hmore
        (fun hmem => hended (List.mem_cons_of_mem _ (List.mem_cons_of_mem _ hmem))) (by simpa using hrequests)
      refine ⟨hresult, ?_, ?_, answer :: answers, .cons hanswer hanswers, ?_⟩
      · rw [List.getLast?_cons, List.getLast?_cons, hlast]
        rfl
      · rw [hopens, hids, List.map_cons]
      · rw [hsaid, hrest, reduceOption_cons]

/-- The numbers of the lines are those of what the loop answered and those of what it left to tasks. -/
theorem map_numberOf_perm
    {lines : List String} {answers : List (Option Message)} (h : List.Forall₂ AnsweredBy lines answers) :
    (lines.map numberOf).Perm
      (answers.reduceOption.map Message.id? ++ (leftToTasks lines answers).map numberOf) := by
  induction h with
  | nil => exact .nil
  | @cons line answer lines answers hanswer _ ih =>
      rw [reduceOption_cons, List.map_cons]
      cases answer with
      | none => exact (ih.cons _).trans List.perm_middle.symm
      | some message =>
          have hreply : ReplyTo (numberOf line) message := hanswer
          rw [← hreply.id?_eq]
          exact ih.cons _

/-- **One answer for each request.**  When the loop has come to its end, however its steps, those of the tasks that
answer, and what else happens were interleaved. -/
theorem replies_law
    {requests : Nat} {first last : Bridge} {bytes : Bytes} {said : List Message} {result : Except Utf8.Fault Unit}
    (hrun : Serving (serve requests) first bytes said (.done result) last)
    (hunanswered : first.replies = []) (hidle : first.pending = [])
    {texts : List String} (hlines : (linesOf (first.input ++ bytes)).map lineText = texts.map .ok)
    (hrequests : texts.length < requests) :
    result = .ok () ∧
    -- No answer is owed any more.
    last.pending = [] ∧
    -- The answers carry the numbers of the lines that asked for something, each once.
    (last.replies.map Message.id?).Perm ((asked texts).map numberOf) ∧
    -- The loop itself answered some of the lines, in their order, and left others to tasks, which answered them.
    ∃ answers late, List.Forall₂ AnsweredBy (asked texts) answers ∧
      said = answers.reduceOption ∧ said.Sublist last.replies ∧
      last.replies.Perm (said ++ late) ∧
      (late.map Message.id?).Perm ((leftToTasks (asked texts) answers).map numberOf) := by
  -- The run has deeds, and the deeds are a conversation.
  obtain ⟨deeds, hsaid, hchronicle, hconversation⟩ := hrun.chronicle (serve_emits requests) (.start first)
  have hdeeds : Conversation requests deeds result := by simpa [Task.Emits] using hconversation
  rw [List.nil_append, List.nil_append] at hchronicle
  have hread := hchronicle.lines [] fun _ => rfl
  rw [List.append_nil, List.append_nil] at hread
  rw [hread] at hlines
  obtain ⟨hresult, hlast, hopens, answers, hanswers, hsent⟩ := hdeeds.accounts hlines
    (fun hended => by rw [(hchronicle.ended hended).2, linesOf_nil]) hrequests
  have hsettled : last.pending = [] := hchronicle.settled hlast
  have hbooks : last.Books ((asked texts).map numberOf) := by
    have hnothing : first.Books [] := ⟨[], hidle.symm, by simp, by simp [hunanswered]⟩
    simpa [hopens] using hchronicle.books [] hnothing
  -- Nobody owes an answer any more, so that all numbers in the books are those of answers.
  have hids : (last.replies.map Message.id?).Perm ((asked texts).map numberOf) := by
    obtain ⟨owed, howed, -, hperm⟩ := hbooks
    rw [hsettled, List.map_eq_nil_iff] at howed
    simpa [howed] using hperm
  have hsaidReplies : said.Sublist last.replies := by
    obtain ⟨new, hnew, hsub⟩ := hchronicle.messages
    have hall : said.filter Message.isReply = said := by
      rw [List.filter_eq_self, hsaid, hsent]
      exact fun message hmem => isReply_of_mem hanswers hmem
    rw [replies, hnew, List.filter_append, ← hall, hsaid]
    have hold : first.messages.filter Message.isReply = [] := hunanswered
    rw [hold, List.nil_append]
    exact hsub.filter _
  obtain ⟨late, hlate⟩ := hsaidReplies.exists_perm_append
  refine ⟨hresult, hsettled, hids, answers, late, hanswers, hsaid.trans hsent, hsaidReplies, hlate, ?_⟩
  have hsplit := (hids.symm.trans (hlate.map Message.id?)).symm.trans (map_numberOf_perm hanswers)
  rw [List.map_append, hsaid, hsent] at hsplit
  exact (List.perm_append_left_iff _).mp hsplit

namespace ShutDown

/-- A machine on which no program is found. -/
def machine : Host where
  resolve := fun _ _ => none
  refuses := fun _ _ _ => none
  complete := fun files _ _ _ => (.ok ⟨[], []⟩, files)
  stamp := fun _ => ""

/-- A machine on which every program is found. -/
def equipped : Host :=
  { machine with resolve := fun _ _ => some ⟨"/cm"⟩ }

/-- Lines among which one is blank and one is no request, and one comes after the request to shut down.  The outcome of
the statement and the definition are still awaited then. -/
def lines : List String :=
  ["\x7b\"command\":\"diagnostics\",\"id\":7\x7d", "", "diagnostics",
    "\x7b\"command\":\"run_statement\",\"id\":5,\"code\":\"\",\"success\":\"g\"\x7d",
    "\x7b\"command\":\"goto\",\"id\":6,\"file\":\"a\",\"offset\":0\x7d",
    "\x7b\"command\":\"shutdown\",\"id\":2\x7d", "\x7b\"command\":\"start\"\x7d"]

/-- A bridge to which the lines were sent. -/
def fresh : Bridge where
  relay := Relay.new { clearOutput := false } {} equipped {}
  input := lines.flatMap fun line => Utf8.encode line ++ [LineBuffer.newline]
  inputClosed := true

theorem replies_law_lines :
    -- When the request to shut down was answered, two answers are owed.
    (∃ said left shutting, Serving (serve 8) fresh [] said left shutting ∧
      shutting.replies.map Message.id? = [some 7, none, some 2] ∧ shutting.pending.length = 2) ∧
    ∃ said result last, Serving (serve 8) fresh [] said (.done result) last ∧ last.pending = [] ∧
      (last.replies.map Message.id?).Perm [some 7, none, some 5, some 6, some 2] := by
  have hruns : (attend 42 (serve 8) fresh).1.value?.isSome = true ∧
      (attend 30 (serve 8) fresh).2.replies.map Message.id? = [some 7, none, some 2] ∧
      (attend 30 (serve 8) fresh).2.pending.length = 2 := by
    decide +kernel
  obtain ⟨hends, hids, hpending⟩ := hruns
  obtain ⟨before, hbefore⟩ := exists_serving_attend 30 _ fresh (serve_emits 8)
  obtain ⟨said, hrun⟩ := exists_serving_attend 42 _ fresh (serve_emits 8)
  obtain ⟨result, hresult⟩ := Option.isSome_iff_exists.mp hends
  rw [Task.value?_eq_some hresult] at hrun
  have htexts : (linesOf (fresh.input ++ [])).map lineText = lines.map .ok := by decide +kernel
  have hlaw := replies_law hrun rfl rfl htexts (by decide)
  have hasked : (asked lines).map numberOf = [some 7, none, some 5, some 6, some 2] := by decide +kernel
  rw [hasked] at hlaw
  exact ⟨⟨before, _, _, hbefore, hids, hpending⟩, said, result, _, hrun, hlaw.2.1, hlaw.2.2.1⟩

end ShutDown
end Bridge
end CompilerRelay
