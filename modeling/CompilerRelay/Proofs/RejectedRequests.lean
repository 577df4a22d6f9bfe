import CompilerRelay.Proofs.EventForwarding
import CompilerRelay.Proofs.RequestFaults
import CompilerRelay.Proofs.UnheededLines

/-!
# Requests that are rejected

A request that cannot be carried out as it stands does nothing but have an error sent.

**Input.**  A reachable bridge whose next line is no request, or asks for a statement with an invalid pattern, and every
run of the loop from there, with whatever happens beside it.  Which patterns are valid is up to the host.

**Invariant.**  `Bridge.Refusing`: the loop has done nothing yet, or it has taken the line off the input, or has had the
patterns read, or has sent the error; all else is what happened on its own.

**Results.**
* `Bridge.Drifts.host_eq`: what happens on its own is no other reading of patterns.
* `Bridge.receive_of_rejected`: taking in such a line is sending the message, perhaps after a look at the patterns.
* `Bridge.Refusing.around`, `Bridge.Refusing.own`: what a step keeps of the invariant.
* `Bridge.rejection_law`: which lines are rejected, and what the loop does with them.
-/

namespace CompilerRelay

section Defs

/-- A pattern of the statement is invalid, as the host reads it. -/
def StatementRequest.Mispatterned (statement : StatementRequest) (host : Host) : Prop :=
  ∃ text ∈ statement.success :: statement.failure.toList, ∃ invalid, host.compile text = .error invalid

namespace Bridge

/-- A bridge that a loop has come to which began with a new one. -/
def Reachable (bridge : Bridge) : Prop :=
  ∃ requests first left, first.IsNew ∧ Task.Moves Changes (serve requests) first left bridge

/-- A text is rejected with a message.  Only if it is a request with an invalid pattern, the message has its number. -/
inductive Rejected (host : Host) (text : String) : Message → Prop
  | invalid (hspoken : isBlankLine text = false) {fault : Json.Fault} (hread : Envelope.read text = .error fault) :
      Rejected host text (.error none ("invalid request: " ++ fault.message text))
  | pattern {id : Option Nat} {statement : StatementRequest} {invalid : Pattern.Invalid}
      (hread : Envelope.read text = .ok ⟨id, .runStatement statement⟩)
      (hcompile : Statement.compile statement.code statement.success statement.failure host.compile = .error invalid) :
      Rejected host text (.error id invalid.message)

/-- What happens to the bridge on its own, in any number of steps. -/
abbrev Drifts : Bridge → Bridge → Prop :=
  Relation.ReflTransGen Changes

/-- How far the loop has come that meets a line which is rejected. -/
inductive Refusing (requests : Nat) (line : Bytes) (text : String) (message : Message) (first : Bridge) :
    Task Bridge (Except Utf8.Fault Unit) → Bridge → Prop
  /-- The line is the next to be read. -/
  | unread {bridge : Bridge} {rest : Bytes} (hdrifts : first.Drifts bridge)
      (hcut : bridge.cutLine? = some (some line, rest)) :
      Refusing requests line text message first (serve (requests + 1)) bridge
  /-- The line was taken off the input. -/
  | taken {reading bridge : Bridge} {rest : Bytes} (hdrifts : first.Drifts reading)
      (hcut : reading.cutLine? = some (some line, rest)) (hread : Drifts { reading with input := rest } bridge) :
      Refusing requests line text message first
        ((receive text).bind fun stop => if stop then finish.bind fun _ => .done (.ok ()) else serve requests) bridge
  /-- The patterns in it were read. -/
  | unanswered {reading bridge : Bridge} {rest : Bytes} (hdrifts : first.Drifts reading)
      (hcut : reading.cutLine? = some (some line, rest)) (hread : Drifts { reading with input := rest } bridge) :
      Refusing requests line text message first ((send message).bind fun _ => serve requests) bridge
  /-- The message was sent, and the loop serves what comes next. -/
  | answered {reading sending bridge : Bridge} {rest : Bytes} {task : Task Bridge (Except Utf8.Fault Unit)}
      (hdrifts : first.Drifts reading) (hcut : reading.cutLine? = some (some line, rest))
      (hread : Drifts { reading with input := rest } sending)
      (hsent : Task.Moves Changes (serve requests) { sending with sent := message :: sending.sent } task bridge) :
      Refusing requests line text message first task bridge

end Bridge
end Defs

/-! ## Patterns -/

theorem Statement.exists_error_iff (host : Host) (statement : StatementRequest) :
    (∃ invalid, compile statement.code statement.success statement.failure host.compile = .error invalid) ↔
      statement.Mispatterned host := by
  obtain ⟨code, success, failure, start, keepOutput⟩ := statement
  unfold compile StatementRequest.Mispatterned
  cases hsuccess : host.compile success with
  | error invalid => simp [hsuccess, bind, Except.bind]
  | ok pattern =>
      cases failure with
      | none => simp [hsuccess, bind, Except.bind, pure, Except.pure]
      | some text =>
          cases hfailure : host.compile text <;>
            simp [hsuccess, hfailure, bind, Except.bind, pure, Except.pure]

namespace Bridge

/-! ## What is rejected -/

theorem isBlankLine_of_read {text : String} {envelope : Envelope} (h : Envelope.read text = .ok envelope) :
    isBlankLine text = false := by
  obtain ⟨members, hread, -⟩ := (Envelope.read_eq_ok_iff_told text envelope).mp h
  obtain ⟨more, hmore⟩ := Json.skipBlanks_of_object hread
  have hmem : '\x7b' ∈ text.toList := (List.dropWhile_suffix _).mem (hmore ▸ List.mem_cons_self)
  have htrim : Text.trim text.toList ≠ [] := Text.trim_ne_nil_iff.mpr ⟨_, hmem, by decide⟩
  simpa [isBlankLine] using htrim

/-- A line is rejected just when it is no request, or one with an invalid pattern. -/
theorem exists_rejected_iff (host : Host) (text : String) :
    (∃ message, Rejected host text message) ↔
      isBlankLine text = false ∧ Faulty text ∨
        ∃ id statement, Envelope.read text = .ok ⟨id, .runStatement statement⟩ ∧ statement.Mispatterned host := by
  constructor
  · rintro ⟨message, h⟩
    cases h with
    | invalid hspoken hread => exact Or.inl ⟨hspoken, (Envelope.exists_error_iff text).mp ⟨_, hread⟩⟩
    | pattern hread hcompile => exact Or.inr ⟨_, _, hread, (Statement.exists_error_iff host _).mp ⟨_, hcompile⟩⟩
  · rintro (⟨hspoken, hfaulty⟩ | ⟨id, statement, hread, hpattern⟩)
    · obtain ⟨fault, hread⟩ := (Envelope.exists_error_iff text).mpr hfaulty
      exact ⟨_, .invalid hspoken hread⟩
    · obtain ⟨invalid, hcompile⟩ := (Statement.exists_error_iff host statement).mpr hpattern
      exact ⟨_, .pattern hread hcompile⟩

/-- Taking in a line that is rejected is sending the message; the patterns are looked at first if they are invalid. -/
theorem receive_of_rejected
    {host : Host} {text : String} {message : Message} (h : Rejected host text message) :
    receive text = (send message).bind (fun _ => .done false) ∨
      ∀ bridge : Bridge, bridge.relay.host = host →
        (receive text).advance? bridge = some ((send message).bind fun _ => .done false, bridge) := by
  cases h with
  | invalid hspoken hread => exact Or.inl (receive_of_invalid hspoken hread)
  | @pattern id statement invalid hread hcompile =>
      refine Or.inr fun bridge hhost => ?_
      subst hhost
      have hblank : ¬ (Text.trim text.toList).isEmpty = true := Bool.eq_false_iff.mp (isBlankLine_of_read hread)
      -- The look at the patterns is the first step of the statement, and changes nothing.
      have hlook : (dispatch id (.runStatement statement)).run.advance? bridge =
          some (.done (.error (.invalidPattern invalid)), bridge) := by
        change some ((onRelay (Relay.attempt Failure.invalidPattern (Statement.compile statement.code statement.success
          statement.failure bridge.relay.host.compile)).run).bind _, bridge) = _
        rw [hcompile]
        rfl
      rw [receive, if_neg hblank, hread]
      exact Task.advance?_bind (Task.advance?_bind hlook _) _

/-! ## What the loop does -/

theorem Reachable.plainTasks {bridge : Bridge} (h : bridge.Reachable) : bridge.PlainTasks := by
  obtain ⟨requests, first, left, hnew, hmoves⟩ := h
  have hnone : AtEach Note.Fits [] := fun front note back hsplit => by simp at hsplit
  obtain ⟨notes, -, haccounted, -⟩ := exists_noting hmoves hnew.accounted (serve_follows requests hnone) hnone
  exact haccounted.plain

/-- A change of the bridge on its own leaves the host as it is. -/
theorem Changes.host_eq
    {before after : Bridge} (h : before.Changes after) (hplain : before.PlainTasks) :
    after.relay.host = before.relay.host ∧ after.PlainTasks := by
  cases h with
  | relay hchange =>
      obtain ⟨happening, -, rfl⟩ := hchange
      exact ⟨(Relay.Evolves.happens before.relay happening).host_eq, hplain⟩
  | arrive | close => exact ⟨rfl, hplain⟩
  | apply happlied =>
      obtain ⟨-, event, -, rfl⟩ := applyEvent?_cases happlied
      exact ⟨rfl, hplain⟩
  | forward hforwarded =>
      obtain ⟨-, event, -, rfl⟩ := forwardEvent?_cases hforwarded
      exact ⟨rfl, hplain⟩
  | answer place hanswer =>
      rcases answer?_cases hanswer with ⟨message, hdone, rfl⟩ | ⟨task, left, relay, htask, hadvance, rfl⟩
      · exact ⟨rfl, fun other hother => hplain other (List.mem_of_mem_eraseIdx hother)⟩
      · obtain ⟨hevolves, hleft⟩ := (hplain task (List.mem_of_getElem? htask)).advance hadvance
        refine ⟨hevolves.host_eq, fun other hother => ?_⟩
        rcases List.mem_or_eq_of_mem_set hother with hold | rfl
        · exact hplain other hold
        · exact hleft

theorem Drifts.host_eq
    {before after : Bridge} (h : before.Drifts after) (hplain : before.PlainTasks) :
    after.relay.host = before.relay.host ∧ after.PlainTasks := by
  induction h with
  | refl => exact ⟨rfl, hplain⟩
  | tail _ hchange ih =>
      obtain ⟨hhost, hnext⟩ := hchange.host_eq ih.2
      exact ⟨hhost.trans ih.1, hnext⟩

namespace Refusing

variable {requests : Nat} {line : Bytes} {text : String} {message : Message} {first bridge after : Bridge}
  {task left : Task Bridge (Except Utf8.Fault Unit)}

theorem around (h : Refusing requests line text message first task bridge) (hchange : bridge.Changes after) :
    Refusing requests line text message first task after := by
  cases h with
  | unread hdrifts hcut =>
      obtain ⟨bytes, -, hafter⟩ := hchange.cutLine?_eq hcut
      exact .unread (hdrifts.tail hchange) hafter
  | taken hdrifts hcut hread => exact .taken hdrifts hcut (hread.tail hchange)
  | unanswered hdrifts hcut hread => exact .unanswered hdrifts hcut (hread.tail hchange)
  | answered hdrifts hcut hread hsent =>
      exact .answered hdrifts hcut hread (hsent.trans (.around hchange (.refl _ _)))

/-- Sending the message is a step after which the loop serves what comes next. -/
theorem sends
    {reading : Bridge} {rest : Bytes} (hdrifts : first.Drifts reading)
    (hcut : reading.cutLine? = some (some line, rest)) (hread : Drifts { reading with input := rest } bridge)
    (htaken : ((send message).bind fun _ => serve requests).advance? bridge = some (left, after)) :
    Refusing requests line text message first left after := by
  obtain ⟨rfl, rfl⟩ := Prod.mk.inj (Option.some.inj htaken)
  exact .answered hdrifts hcut hread (.refl _ _)

/-- The next step of the loop takes the line off the input, reads the patterns, sends the message, or comes later. -/
theorem own
    (h : Refusing requests line text message first task bridge) (hplain : first.PlainTasks)
    (htext : lineText line = .ok text) (hrejected : Rejected first.relay.host text message)
    (htaken : task.advance? bridge = some (left, after)) :
    Refusing requests line text message first left after := by
  cases h with
  | unread hdrifts hcut =>
      rw [advance?_serve hcut htext] at htaken
      obtain ⟨rfl, rfl⟩ := Prod.mk.inj (Option.some.inj htaken)
      exact .taken hdrifts hcut .refl
  | @taken reading _ rest hdrifts hcut hread =>
      rcases receive_of_rejected hrejected with hreceive | hreceive
      · rw [hreceive] at htaken
        exact sends hdrifts hcut hread htaken
      · obtain ⟨hfirst, hreading⟩ := hdrifts.host_eq hplain
        have hhost : bridge.relay.host = first.relay.host := (Drifts.host_eq hread hreading).1.trans hfirst
        rw [Task.advance?_bind (hreceive bridge hhost)] at htaken
        obtain ⟨rfl, rfl⟩ := Prod.mk.inj (Option.some.inj htaken)
        exact .unanswered hdrifts hcut hread
  | unanswered hdrifts hcut hread => exact sends hdrifts hcut hread htaken
  | answered hdrifts hcut hread hsent =>
      exact .answered hdrifts hcut hread (hsent.trans (.own htaken (.refl _ _)))

theorem moves
    (h : Refusing requests line text message first task bridge) (hplain : first.PlainTasks)
    (htext : lineText line = .ok text) (hrejected : Rejected first.relay.host text message)
    (hmoves : Task.Moves Changes task bridge left after) :
    Refusing requests line text message first left after := by
  -- The induction is on the run, from wherever the loop has come to.
  induction hmoves with
  | refl => exact h
  | around hchange _ ih => exact ih (h.around hchange)
  | own htaken _ ih => exact ih (h.own hplain htext hrejected htaken)

end Refusing

/-- The loop can take the line off the input and send the message at once. -/
theorem moves_of_rejected
    {requests : Nat} {bridge : Bridge} {line rest : Bytes} {text : String} {message : Message}
    (hcut : bridge.cutLine? = some (some line, rest)) (htext : lineText line = .ok text)
    (hrejected : Rejected bridge.relay.host text message) :
    Task.Moves Changes (serve (requests + 1)) bridge (serve requests)
      { bridge with input := rest, sent := message :: bridge.sent } := by
  have hread : (serve (requests + 1)).advance? bridge = _ := advance?_serve hcut htext
  rcases receive_of_rejected hrejected with hreceive | hreceive
  · rw [hreceive] at hread
    exact .own hread (.own rfl (.refl _ _))
  · exact .own hread (.own (Task.advance?_bind (hreceive { bridge with input := rest } rfl) _) (.own rfl (.refl _ _)))

/-- **Rejected requests.**  A line is rejected just when it is no request or has a pattern that the host cannot read.
Then all that the loop does is to take it off the input and to send one message: whatever else changes, changes on its
own.  And it can do so at once, from wherever the bridge has come to. -/
theorem rejection_law (text : String) :
    (∀ host, (∃ message, Rejected host text message) ↔
      isBlankLine text = false ∧ Faulty text ∨
        ∃ id statement, Envelope.read text = .ok ⟨id, .runStatement statement⟩ ∧ statement.Mispatterned host) ∧
    ∀ {bridge : Bridge}, bridge.Reachable → ∀ {message : Message}, Rejected bridge.relay.host text message →
      ∀ {requests : Nat} {line rest : Bytes}, bridge.cutLine? = some (some line, rest) → lineText line = .ok text →
      (∀ left last, Task.Moves Changes (serve (requests + 1)) bridge left last →
        Refusing requests line text message bridge left last) ∧
      Task.Moves Changes (serve (requests + 1)) bridge (serve requests)
        { bridge with input := rest, sent := message :: bridge.sent } := by
  refine ⟨fun host => exists_rejected_iff host text,
    fun {bridge} hreachable {message} hrejected {requests line rest} hcut htext => ⟨fun left last hmoves => ?_, ?_⟩⟩
  · exact Refusing.moves (.unread .refl hcut) hreachable.plainTasks htext hrejected hmoves
  · exact moves_of_rejected hcut htext hrejected

/-- A request for a statement whose pattern of success is not closed. -/
def unclosedRequest : String :=
  "\x7b\"success\":\"(\",\"code\":\"x();\",\"id\":7,\"command\":\"run_statement\"\x7d"

theorem rejection_law_unclosed :
    ∃ last, Task.Moves Changes (serve 1) (Unreadable.given (Utf8.encode (unclosedRequest ++ "\n"))) (serve 0) last ∧
      last.messages = [.error (some 7) "invalid output pattern \"(\""] ∧
      last.relay = (Unreadable.given []).relay := by
  have hread : (Envelope.read unclosedRequest).toOption =
      some ⟨some 7, .runStatement { code := "x();", success := "(" }⟩ := by decide +kernel
  have hcompile : Statement.compile "x();" "(" none = .error ⟨"("⟩ := by decide +kernel
  have hcut : (Unreadable.given (Utf8.encode (unclosedRequest ++ "\n"))).cutLine? =
      some (some (Utf8.encode (unclosedRequest ++ "\n")), []) := by decide +kernel
  have htext : lineText (Utf8.encode (unclosedRequest ++ "\n")) = .ok unclosedRequest := by decide +kernel
  cases hok : Envelope.read unclosedRequest with
  | error fault => simp [hok, Except.toOption] at hread
  | ok envelope =>
      obtain rfl : envelope = _ := Option.some.inj (hok ▸ hread)
      have hreachable : Reachable (Unreadable.given (Utf8.encode (unclosedRequest ++ "\n"))) :=
        ⟨0, _, _, ⟨rfl, rfl, rfl, rfl, rfl⟩, .refl _ _⟩
      have hrejected : Rejected ShutDown.machine unclosedRequest _ := .pattern hok hcompile
      exact ⟨_, ((rejection_law unclosedRequest).2 hreachable hrejected hcut htext).2, rfl, rfl⟩

end Bridge
end CompilerRelay
