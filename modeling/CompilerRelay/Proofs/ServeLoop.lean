import CompilerRelay.Bridge
import CompilerRelay.Proofs.TaskSteps

/-!
# What the loop does

The loop that serves requests reads lines, and for each that asks for something it either sends an answer or hands
the answer over to a task.

**Form.**  `Bridge.Does before after deeds`: a step of the loop is these deeds.  Most steps are none: they change the
relay, or they look.

**Algorithm.**  `Bridge.Conversation requests deeds result`: the deeds of the loop in their order, one constructor for
each way in which a line is taken in.

**Results.**
* `Bridge.handle_emits`: a request is one deed, which answers it.
* `Bridge.serve_emits`: the deeds of the loop are a conversation.
-/

namespace CompilerRelay

/-- Whether the answer to a request may come later. -/
def Request.mayWait : Request → Bool
  | .runStatement _ | .goto _ _ => true
  | .start | .stop | .reset | .clean | .cleanTemplates | .compileFile _ | .compileWorkspace _ | .compileFolders _
  | .runCurrentFile _ | .loadAllKnown _ | .run _ | .runIfStarted _ | .quitDebug | .outputFile _ | .diagnostics
  | .shutdown => false

/-- What the loop does. -/
inductive Deed where
  | read (line : Bytes)
  /-- The end of the input was read. -/
  | ended
  | reply (message : Message)
  /-- A task is to answer the request with this number. -/
  | later (id : Option Nat)
  /-- It was seen that no task is to answer any more. -/
  | settled

namespace Bridge

/-! ## Lines -/

/-- Whether a line asks for nothing. -/
def isBlankLine (line : String) : Bool :=
  (Text.trim line.toList).isEmpty

/-- The number that the answer to a line carries. -/
def numberOf (line : String) : Option Nat :=
  match Envelope.read line with
  | .ok envelope => envelope.id
  | .error _ => none

/-- Whether the answer to a line may come later. -/
def mayWait (line : String) : Bool :=
  match Envelope.read line with
  | .ok envelope => envelope.request.mayWait
  | .error _ => false

def asksShutdown (line : String) : Bool :=
  match Envelope.read line with
  | .ok envelope => envelope.request == .shutdown
  | .error _ => false

/-- A message answers a request with a number, or one without. -/
structure ReplyTo (id : Option Nat) (message : Message) : Prop where
  isReply : message.isReply = true
  id?_eq : message.id? = id

/-- A deed takes care of a line. -/
inductive TakesCare (line : String) : Deed → Prop
  | reply {message : Message} (hreply : ReplyTo (numberOf line) message) : TakesCare line (.reply message)
  | later (hwait : mayWait line = true) : TakesCare line (.later (numberOf line))

/-- The deeds of the loop that serves so many requests, and the result. -/
inductive Conversation : Nat → List Deed → Except Utf8.Fault Unit → Prop
  | spent : Conversation 0 [.settled] (.ok ())
  | ended (requests : Nat) : Conversation (requests + 1) [.ended, .settled] (.ok ())
  | notText {requests : Nat} {line : Bytes} {fault : Utf8.Fault}
      (htext : lineText line = .error fault) :
      Conversation (requests + 1) [.read line] (.error fault)
  | blank {requests : Nat} {line : Bytes} {text : String} {deeds : List Deed} {result : Except Utf8.Fault Unit}
      (htext : lineText line = .ok text) (hblank : isBlankLine text = true)
      (hmore : Conversation requests deeds result) :
      Conversation (requests + 1) (.read line :: deeds) result
  | shutdown {requests : Nat} {line : Bytes} {text : String} {deed : Deed}
      (htext : lineText line = .ok text) (hspoken : isBlankLine text = false)
      (hshutdown : asksShutdown text = true) (hcare : TakesCare text deed) :
      Conversation (requests + 1) [.read line, deed, .settled] (.ok ())
  | request {requests : Nat} {line : Bytes} {text : String} {deed : Deed} {deeds : List Deed}
      {result : Except Utf8.Fault Unit}
      (htext : lineText line = .ok text) (hspoken : isBlankLine text = false)
      (hopen : asksShutdown text = false) (hcare : TakesCare text deed)
      (hmore : Conversation requests deeds result) :
      Conversation (requests + 1) (.read line :: deed :: deeds) result

/-! ## Steps -/

/-- A step that sends nothing, reads nothing, and leaves those who answer alone. -/
structure Quiet (before after : Bridge) : Prop where
  sent_eq : after.sent = before.sent
  pending_eq : after.pending = before.pending
  input_eq : after.input = before.input
  inputClosed_eq : after.inputClosed = before.inputClosed

theorem Quiet.refl (bridge : Bridge) : bridge.Quiet bridge := ⟨rfl, rfl, rfl, rfl⟩

/-- Whatever a task ends with answers the request with a number. -/
def Owes (task : Task Relay Message) (id : Option Nat) : Prop :=
  task.Yields (ReplyTo id)

/-- A step of the loop is these deeds. -/
inductive Does : Bridge → Bridge → List Deed → Prop
  | quiet {before after : Bridge} (hquiet : before.Quiet after) : Does before after []
  | read {before : Bridge} {line rest : Bytes} (hcut : before.cutLine? = some (some line, rest)) :
      Does before { before with input := rest } [.read line]
  | ended {before : Bridge} {rest : Bytes} (hcut : before.cutLine? = some (none, rest)) :
      Does before { before with input := rest } [.ended]
  | reply {before : Bridge} {message : Message} (hreply : message.isReply = true) :
      Does before (before.post message) [.reply message]
  | later {before : Bridge} {task : Task Relay Message} {id : Option Nat} (howes : Owes task id) :
      Does before { before with pending := before.pending ++ [task] } [.later id]
  | settled {before : Bridge} (hpending : before.pending = []) : Does before before [.settled]

section Steps

variable {α : Type}

theorem onRelay_quiet (task : Task Relay α) : (onRelay task).Within Quiet :=
  Task.within_zoom (fun _ _ => ⟨rfl, rfl, rfl, rfl⟩) task

theorem onRelay_emits (task : Task Relay α) : (onRelay task).Emits Does fun deeds _ => deeds = [] :=
  (onRelay_quiet task).emits fun _ _ => .quiet

theorem operate_emits (operation : Operation α) :
    (operate operation).run.Emits Does fun deeds _ => deeds = [] :=
  onRelay_emits operation.run

theorem look_emits (view : Bridge → α) : (Task.look view).Emits Does fun deeds _ => deeds = [] :=
  (Task.within_look Quiet.refl view).emits fun _ _ => .quiet

theorem await_emits (poll : Bridge → Option α) : (Task.await poll).Emits Does fun deeds _ => deeds = [] :=
  (Task.within_await Quiet.refl poll).emits fun _ _ => .quiet

theorem send_emits {message : Message} (hreply : message.isReply = true) :
    (send message).Emits Does fun deeds _ => deeds = [.reply message] :=
  fun _ _ => ⟨[.reply message], .reply hreply, rfl⟩

theorem owes_answerOf
    {id : Option Nat} (message : α → Message) (hmessage : ∀ value, ReplyTo id (message value))
    (operation : Operation α) :
    Owes (answerOf id message operation) id := by
  refine Task.yields_bind operation.run fun result => ?_
  cases result with
  | ok value => exact hmessage value
  | error failure => exact ⟨rfl, rfl⟩

end Steps

/-! ## Requests -/

/-- What has been done for a request when it was carried out. -/
def Dispatched (id : Option Nat) (request : Request) (deeds : List Deed) :
    Except Failure (Option Message) → Prop
  | .ok (some message) => deeds = [] ∧ ReplyTo id message
  | .ok none => deeds = [.later id] ∧ request.mayWait = true
  | .error _ => deeds = []

theorem reply_emits
    {α : Type} {id : Option Nat} (request : Request) (message : α → Message)
    (hmessage : ∀ value, ReplyTo id (message value)) (operation : Operation α) :
    (reply message operation).run.Emits Does (Dispatched id request) := by
  refine Task.emits_bind (operate_emits operation) ?_ fun deeds failure hdeeds => hdeeds
  rintro deeds value rfl
  exact ⟨rfl, hmessage value⟩

theorem runStatement_emits (id : Option Nat) (statement : StatementRequest) :
    (runStatement id statement).run.Emits Does (Dispatched id (.runStatement statement)) := by
  refine Task.emits_bind (operate_emits _) ?_ fun deeds failure hdeeds => hdeeds
  rintro deeds compiled rfl
  refine Task.emits_bind (operate_emits _) ?_ fun deeds failure hdeeds => hdeeds
  rintro deeds submitted rfl
  cases submitted with
  | none => exact ⟨rfl, rfl, rfl⟩
  | some watch =>
      have howes : Owes (answerOf id (matchedMessage id) watch.wait) id :=
        owes_answerOf (matchedMessage id) (fun _ => ⟨rfl, rfl⟩) watch.wait
      exact fun _ _ => ⟨[.later id], .later howes, rfl, rfl⟩

theorem lookUp_emits (id : Option Nat) (file : Path) (offset : Nat) :
    (lookUp id file offset).run.Emits Does (Dispatched id (.goto file offset)) := by
  refine Task.emits_bind (operate_emits _) ?_ fun deeds failure hdeeds => hdeeds
  rintro deeds watch rfl
  have howes : Owes (answerOf id (Message.ofLocation id) watch.waitLocation) id :=
    owes_answerOf (Message.ofLocation id) (fun _ => ⟨rfl, rfl⟩) watch.waitLocation
  exact fun _ _ => ⟨[.later id], .later howes, rfl, rfl⟩

theorem replyTo_done {α : Type} (id : Option Nat) (value : α) : ReplyTo id (done id value) := ⟨rfl, rfl⟩

theorem replyTo_okWithPath (id : Option Nat) (path : Path) : ReplyTo id (Message.okWithPath id path) := ⟨rfl, rfl⟩

theorem dispatch_emits (id : Option Nat) (request : Request) :
    (dispatch id request).run.Emits Does (Dispatched id request) := by
  cases request with
  | start | stop | reset | clean | cleanTemplates | compileWorkspace | compileFolders | loadAllKnown | run
  | runIfStarted | quitDebug => exact reply_emits _ (done id) (replyTo_done id) _
  | compileFile | runCurrentFile => exact reply_emits _ (Message.okWithPath id) (replyTo_okWithPath id) _
  | outputFile enabled =>
      cases enabled with
      | true => exact reply_emits _ (Message.okWithPath id) (replyTo_okWithPath id) _
      | false => exact reply_emits _ (done id) (replyTo_done id) _
  | runStatement statement => exact runStatement_emits id statement
  | goto file offset => exact lookUp_emits id file offset
  | diagnostics => exact fun bridge _ => ⟨[], .quiet (.refl bridge), rfl, rfl, rfl⟩
  | shutdown => exact ⟨rfl, rfl, rfl⟩

/-- A request is one deed, which answers it or leaves the answer to a task. -/
theorem handle_emits (envelope : Envelope) :
    (handle envelope).Emits Does fun deeds _ =>
      (∃ message, deeds = [.reply message] ∧ ReplyTo envelope.id message) ∨
      (deeds = [.later envelope.id] ∧ envelope.request.mayWait = true) := by
  refine Task.Emits.bind (dispatch_emits envelope.id envelope.request) fun deeds result hdispatched => ?_
  cases result with
  | error failure =>
      obtain rfl := hdispatched
      have hreply : ReplyTo envelope.id (.error envelope.id failure.message) := ⟨rfl, rfl⟩
      refine (send_emits hreply.isReply).mono fun later _ hlater => Or.inl ⟨_, ?_, hreply⟩
      rw [hlater, List.nil_append]
  | ok answer =>
      cases answer with
      | none => exact Or.inr (by rwa [List.append_nil])
      | some message =>
          obtain ⟨rfl, hreply⟩ := hdispatched
          refine (send_emits hreply.isReply).mono fun later _ hlater => Or.inl ⟨message, ?_, hreply⟩
          rw [hlater, List.nil_append]

/-- A line is no deed if it is blank, and otherwise one that takes care of it. -/
theorem receive_emits (line : String) :
    (receive line).Emits Does fun deeds stop =>
      (isBlankLine line = true ∧ deeds = [] ∧ stop = false) ∨
      (isBlankLine line = false ∧ stop = asksShutdown line ∧ ∃ deed, deeds = [deed] ∧ TakesCare line deed) := by
  unfold receive
  by_cases hblank : (Text.trim line.toList).isEmpty = true
  · rw [if_pos hblank]
    exact Or.inl ⟨hblank, rfl, rfl⟩
  · have hspoken : isBlankLine line = false := Bool.eq_false_iff.mpr hblank
    rw [if_neg hblank]
    cases hread : Envelope.read line with
    | error fault =>
        have hnumber : numberOf line = none := by simp [numberOf, hread]
        have hstop : asksShutdown line = false := by simp [asksShutdown, hread]
        have hreply : ReplyTo (numberOf line) (invalidMessage fault line) := ⟨rfl, hnumber.symm⟩
        refine Task.Emits.bind (send_emits hreply.isReply) fun deeds _ hdeeds => Or.inr ⟨hspoken, hstop.symm, ?_⟩
        rw [hdeeds]
        exact ⟨_, rfl, .reply hreply⟩
    | ok envelope =>
        have hnumber : numberOf line = envelope.id := by simp [numberOf, hread]
        have hwait : mayWait line = envelope.request.mayWait := by simp [mayWait, hread]
        have hstop : asksShutdown line = (envelope.request == .shutdown) := by simp [asksShutdown, hread]
        refine Task.Emits.bind (handle_emits envelope) fun deeds _ hdeeds => Or.inr ⟨hspoken, hstop.symm, ?_⟩
        rw [List.append_nil]
        rcases hdeeds with ⟨message, rfl, hreply⟩ | ⟨rfl, hlater⟩
        · exact ⟨_, rfl, .reply (hnumber ▸ hreply)⟩
        · refine ⟨_, rfl, ?_⟩
          rw [← hnumber]
          exact .later (hwait.trans hlater)

/-! ## The loop -/

theorem readLine_emits :
    readLine.Emits Does fun deeds line => deeds = [line.elim Deed.ended Deed.read] := by
  intro bridge can
  cases hcut : bridge.cutLine? with
  | none => simp [hcut] at can
  | some cut =>
      obtain ⟨line, rest⟩ := cut
      cases line with
      | none =>
          refine ⟨[.ended], ?_, ?_⟩
          · simpa [hcut] using Does.ended hcut
          · simp [Task.Emits, hcut]
      | some line =>
          refine ⟨[.read line], ?_, ?_⟩
          · simpa [hcut] using Does.read hcut
          · simp [Task.Emits, hcut]

/-- At the end it is seen that no task is to answer any more. -/
theorem finish_emits : finish.Emits Does fun deeds _ => deeds = [.settled] := by
  unfold finish
  refine Task.Emits.bind (onRelay_emits _) ?_
  rintro deeds ended rfl
  refine Task.Emits.bind (look_emits _) ?_
  rintro deeds start rfl
  refine Task.Emits.bind (await_emits _) ?_
  rintro deeds drained rfl
  -- Whether the tasks were drained in time or not, both ways wait for the same thing in the end.
  have hlast : (Task.await fun bridge : Bridge => if bridge.pending.isEmpty then some () else none).Emits Does
      fun deeds _ => deeds = [.settled] := by
    intro bridge can
    refine ⟨[.settled], .settled ?_, rfl⟩
    cases hpending : bridge.pending with
    | nil => rfl
    | cons task rest => simp [hpending] at can
  cases drained with
  | true => exact hlast
  | false =>
      have hquiet : (Task.update fun bridge : Bridge => { bridge with forwarding := false }).Within Quiet :=
        Task.within_update fun _ => ⟨rfl, rfl, rfl, rfl⟩
      refine Task.Emits.bind (hquiet.emits fun _ _ => .quiet) ?_
      rintro deeds _ rfl
      exact hlast

/-- The deeds of the loop are a conversation. -/
theorem serve_emits (requests : Nat) : (serve requests).Emits Does (Conversation requests) := by
  -- On the number of requests; the constructors of `Conversation` follow the ways through one round.
  induction requests with
  | zero =>
      refine Task.Emits.bind finish_emits ?_
      rintro deeds _ rfl
      exact .spent
  | succ requests ih =>
      refine Task.Emits.bind readLine_emits ?_
      rintro deeds (_ | bytes) rfl
      · refine Task.Emits.bind finish_emits ?_
        rintro deeds _ rfl
        exact .ended requests
      · cases htext : lineText bytes with
        | error fault =>
            have hquiet : (Task.update abandon).Within Quiet := Task.within_update fun _ => ⟨rfl, rfl, rfl, rfl⟩
            simp only [htext]
            refine Task.Emits.bind (hquiet.emits fun _ _ => .quiet) ?_
            rintro deeds _ rfl
            exact .notText htext
        | ok line =>
            simp only [htext]
            refine Task.Emits.bind (receive_emits line) ?_
            rintro deeds stop (⟨hblank, rfl, rfl⟩ | ⟨hspoken, rfl, deed, rfl, hcare⟩)
            · exact ih.mono fun later result hlater => .blank htext hblank hlater
            · cases hstop : asksShutdown line with
              | true =>
                  refine Task.Emits.bind finish_emits ?_
                  rintro later _ rfl
                  exact .shutdown htext hspoken hstop hcare
              | false => exact ih.mono fun later result hlater => .request htext hspoken hstop hcare hlater

end Bridge
end CompilerRelay
