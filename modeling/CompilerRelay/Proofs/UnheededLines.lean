import CompilerRelay.Proofs.ServeReplies

/-!
# Lines that are no requests

A line that cannot be read as a request is answered with an error, and what comes after it is served as ever.

**Input.**  A bridge whose next line is such a line, and every run of the loop from there, with whatever happens beside
it.

**Invariant.**  `Bridge.Standing`: how a run that meets the line stands to one that does not.  Before the line is taken
in, they differ in the line; after that, in the messages that the line is answered with.

**Results.**
* `Task.Moves.alike`: related states have the same runs, if each step is alike from both.
* `Bridge.Standing.around`, `Bridge.Standing.own`: what a step keeps of the invariant.
* `Bridge.Conversation.stops`: where a conversation stops.
* `Bridge.survival_law`: the two runs correspond, and the loop stops nowhere else than it should, but for a line that is
  no text.
-/

namespace CompilerRelay
namespace Task

/-! ## Steps that are alike -/

section Alike

variable {σ τ α β ε : Type} {relation : σ → σ → Prop}

/-- In related states every own step of the task can be taken or not alike, and leaves related states and the same
task. -/
def Alike (relation : σ → σ → Prop) : Task σ α → Prop
  | .done _ => True
  | .step ready next rest =>
      (∀ first second, relation first second → ready first = ready second) ∧
      (∀ first second, relation first second → ready first = true → relation (next first) (next second)) ∧
      (∀ first second here there, relation first second → rest first here = rest second there) ∧
      ∀ state can, (rest state can).Alike relation

theorem Alike.bind
    {task : Task σ α} (h : task.Alike relation)
    {follow : α → Task σ β} (hfollow : ∀ value, (follow value).Alike relation) :
    (task.bind follow).Alike relation := by
  induction task with
  | done value => exact hfollow value
  | step ready next rest ih =>
      obtain ⟨hready, hnext, hsame, hrest⟩ := h
      refine ⟨hready, hnext, fun first second here there hrelated => ?_,
        fun state can => ih state can (hrest state can)⟩
      exact congrArg (Task.bind · follow) (hsame first second here there hrelated)

theorem alike_act
    {change : σ → α × σ}
    (hvalue : ∀ first second, relation first second → (change first).1 = (change second).1)
    (hstate : ∀ first second, relation first second → relation (change first).2 (change second).2) :
    (act change).Alike relation :=
  ⟨fun _ _ _ => rfl, fun first second h _ => hstate first second h,
    fun first second _ _ h => congrArg Task.done (hvalue first second h), fun _ _ => trivial⟩

theorem alike_update
    {change : σ → σ}
    (hstate : ∀ first second, relation first second → relation (change first) (change second)) :
    (update change).Alike relation :=
  alike_act (fun _ _ _ => rfl) hstate

theorem alike_look
    {view : σ → α} (hview : ∀ first second, relation first second → view first = view second) :
    (look view).Alike relation :=
  alike_act hview fun _ _ h => h

theorem alike_await
    {poll : σ → Option α} (hpoll : ∀ first second, relation first second → poll first = poll second) :
    (await poll).Alike relation := by
  refine ⟨fun first second h => ?_, fun _ _ h _ => h, fun first second here there h => ?_, fun _ _ => trivial⟩
  · exact congrArg Option.isSome (hpoll first second h)
  · simp only [hpoll first second h]

theorem alike_take
    {poll : σ → Option (α × σ)}
    (hnone : ∀ first second, relation first second → poll first = none → poll second = none)
    (hsome : ∀ first second, relation first second → ∀ value left, poll first = some (value, left) →
      ∃ right, poll second = some (value, right) ∧ relation left right) :
    (take poll).Alike relation := by
  refine ⟨fun first second h => ?_, fun first second h can => ?_, fun first second here there h => ?_,
    fun _ _ => trivial⟩
  · cases hfirst : poll first with
    | none => simp [hfirst, hnone first second h hfirst]
    | some cut =>
        obtain ⟨right, hsecond, -⟩ := hsome first second h cut.1 cut.2 hfirst
        simp [hfirst, hsecond]
  · obtain ⟨cut, hfirst⟩ := Option.isSome_iff_exists.mp can
    obtain ⟨right, hsecond, hrelated⟩ := hsome first second h cut.1 cut.2 hfirst
    simpa [hfirst, hsecond] using hrelated
  · obtain ⟨cut, hfirst⟩ := Option.isSome_iff_exists.mp here
    obtain ⟨right, hsecond, -⟩ := hsome first second h cut.1 cut.2 hfirst
    simp only [Option.get_of_eq_some here hfirst, Option.get_of_eq_some there hsecond]

/-- What a task does to a part of a state that is the same in related states. -/
theorem alike_zoom
    {whole : τ → τ → Prop} {get : τ → σ} {set : σ → τ → τ}
    (hget : ∀ first second, whole first second → get first = get second)
    (hset : ∀ part first second, whole first second → whole (set part first) (set part second))
    (task : Task σ α) :
    (task.zoom get set).Alike whole := by
  induction task with
  | done value => trivial
  | step ready next rest ih =>
      refine ⟨fun first second h => ?_, fun first second h _ => ?_, fun first second here there h => ?_,
        fun state can => ih (get state) can⟩
      · exact congrArg ready (hget first second h)
      · have hpart : next (get first) = next (get second) := congrArg next (hget first second h)
        have hwhole := hset (next (get first)) first second h
        rw [hpart] at hwhole
        simpa only [hpart] using hwhole
      · simp only [hget first second h]

theorem alike_bind
    {task : ExceptT ε (Task σ) α} (h : task.run.Alike relation)
    {follow : α → ExceptT ε (Task σ) β} (hfollow : ∀ value, (follow value).run.Alike relation) :
    (task >>= follow).run.Alike relation := by
  refine Alike.bind h fun result => ?_
  cases result with
  | ok value => exact hfollow value
  | error failure => trivial

theorem alike_lift
    {task : Task σ α} (h : task.Alike relation) :
    (ExceptT.lift task : ExceptT ε (Task σ) α).run.Alike relation :=
  Alike.bind h fun _ => trivial

theorem Alike.rest
    {task left : Task σ α} (h : task.Alike relation) {before after : σ}
    (htaken : task.advance? before = some (left, after)) :
    left.Alike relation := by
  obtain ⟨ready, next, rest, can, rfl, rfl, rfl⟩ := exists_of_advance? htaken
  exact h.2.2.2 before can

theorem Alike.advance
    {task left : Task σ α} (h : task.Alike relation) {before after other : σ} (hrelated : relation before other)
    (htaken : task.advance? before = some (left, after)) :
    ∃ last, task.advance? other = some (left, last) ∧ relation after last := by
  obtain ⟨ready, next, rest, can, rfl, rfl, rfl⟩ := exists_of_advance? htaken
  obtain ⟨hready, hnext, hsame, -⟩ := h
  have there : ready other = true := (hready before other hrelated).symm.trans can
  refine ⟨next other, ?_, hnext before other hrelated can⟩
  rw [advance?, dif_pos there, hsame before other can there hrelated]

/-- Related states have the same runs, if the surroundings cannot tell them apart either. -/
theorem Moves.alike
    {surroundings : σ → σ → Prop}
    (haround : ∀ {before after other}, surroundings before after → relation before other →
      ∃ last, surroundings other last ∧ relation after last)
    {task left : Task σ α} (h : task.Alike relation) {before after other : σ} (hrelated : relation before other)
    (hmoves : Moves surroundings task before left after) :
    ∃ last, Moves surroundings task other left last ∧ relation after last := by
  induction hmoves generalizing other with
  | refl task state => exact ⟨other, .refl task other, hrelated⟩
  | around hchange _ ih =>
      obtain ⟨between, hother, hbetween⟩ := haround hchange hrelated
      obtain ⟨last, hmore, hlast⟩ := ih h hbetween
      exact ⟨last, .around hother hmore, hlast⟩
  | own htaken _ ih =>
      obtain ⟨between, hother, hbetween⟩ := h.advance hrelated htaken
      obtain ⟨last, hmore, hlast⟩ := ih (h.rest htaken) hbetween
      exact ⟨last, .own hother hmore, hlast⟩

end Alike
end Task

namespace Bridge

/-! ## What was said before -/

/-- Two bridges that are the same, but for bytes that the first has yet to read before the others, and for what they had
sent before. -/
def Apart (ahead : Bytes) (old other : List Message) (first second : Bridge) : Prop :=
  ∃ (bridge : Bridge) (new : List Message),
    first = { bridge with sent := new ++ old, input := ahead ++ bridge.input } ∧
    second = { bridge with sent := new ++ other }

namespace Apart

variable {ahead : Bytes} {old other : List Message} {first second after : Bridge}

theorem relay_eq (h : Apart ahead old other first second) : first.relay = second.relay := by
  obtain ⟨bridge, new, rfl, rfl⟩ := h
  rfl

theorem input_eq (h : Apart ahead old other first second) : first.input = ahead ++ second.input := by
  obtain ⟨bridge, new, rfl, rfl⟩ := h
  rfl

theorem post (h : Apart [] old other first second) (message : Message) :
    Apart [] old other (first.post message) (second.post message) := by
  obtain ⟨bridge, new, rfl, rfl⟩ := h
  exact ⟨bridge, message :: new, rfl, rfl⟩

/-- Whatever does not look at the messages keeps the bridges as far apart. -/
theorem map
    (h : Apart [] old other first second) (change : Bridge → Bridge)
    (hchange : ∀ bridge sent, change { bridge with sent } = { change bridge with sent }) :
    Apart [] old other (change first) (change second) := by
  obtain ⟨bridge, new, rfl, rfl⟩ := h
  exact ⟨change bridge, new, hchange _ _, hchange _ _⟩

/-- What happens to one of them may happen to the other. -/
theorem around
    (h : Apart ahead old other first second) (hchange : first.Changes after) :
    ∃ last, second.Changes last ∧ Apart ahead old other after last := by
  obtain ⟨bridge, new, rfl, rfl⟩ := h
  cases hchange with
  | @relay relay hrelay => exact ⟨_, .relay hrelay, { bridge with relay }, new, rfl, rfl⟩
  | arrive bytes hopen =>
      refine ⟨_, .arrive bytes hopen, { bridge with input := bridge.input ++ bytes }, new, ?_, rfl⟩
      rw [List.append_assoc]
  | close => exact ⟨_, .close _, { bridge with inputClosed := true }, new, rfl, rfl⟩
  | apply happlied =>
      unfold applyEvent? at happlied
      split at happlied
      · next hnext =>
          obtain ⟨event, hevent, rfl⟩ := Option.map_eq_some_iff.mp happlied
          exact ⟨_, .apply ((if_pos hnext).trans (Option.map_eq_some_iff.mpr ⟨event, hevent, rfl⟩)),
            { bridge with store := bridge.store.apply event, applied := bridge.applied + 1 }, new, rfl, rfl⟩
      · cases happlied
  | forward hforwarded =>
      unfold forwardEvent? at hforwarded
      split at hforwarded
      · next hnext =>
          obtain ⟨event, hevent, rfl⟩ := Option.map_eq_some_iff.mp hforwarded
          exact ⟨_, .forward ((if_pos hnext).trans (Option.map_eq_some_iff.mpr ⟨event, hevent, rfl⟩)),
            { bridge with forwarded := bridge.forwarded + 1 }, Message.ofEvent event :: new, rfl, rfl⟩
      · cases hforwarded
  | answer place hanswer =>
      rcases answer?_cases hanswer with ⟨message, hdone, rfl⟩ | ⟨task, left, relay, htask, hadvance, rfl⟩
      · have hpending : bridge.pending[place]? = some (.done message) := hdone
        refine ⟨_, .answer place ?_, { bridge with pending := bridge.pending.eraseIdx place }, message :: new, rfl, rfl⟩
        simp only [answer?, hpending]
        rfl
      · have hpending : bridge.pending[place]? = some task := htask
        have hstep : task.advance? bridge.relay = some (left, relay) := hadvance
        refine ⟨_, .answer place ?_, { bridge with relay, pending := bridge.pending.set place left }, new, rfl, rfl⟩
        cases task with
        | done message => cases hadvance
        | step ready next rest =>
            simp only [answer?, hpending, hstep]
            rfl

end Apart

section Steps

variable {α : Type} {old other : List Message}

theorem onRelay_alike (task : Task Relay α) : (onRelay task).Alike (Apart [] old other) :=
  Task.alike_zoom (fun _ _ h => h.relay_eq)
    (fun part _ _ h => h.map (fun bridge => { bridge with relay := part }) fun _ _ => rfl) task

theorem operate_alike (operation : Operation α) : (operate operation).run.Alike (Apart [] old other) :=
  onRelay_alike operation.run

theorem send_alike (message : Message) : (send message).Alike (Apart [] old other) :=
  Task.alike_update fun _ _ h => h.post message

theorem answerLater_alike (task : Task Relay Message) : (answerLater task).Alike (Apart [] old other) :=
  Task.alike_update fun _ _ h =>
    h.map (fun bridge => { bridge with pending := bridge.pending ++ [task] }) fun _ _ => rfl

theorem reply_alike (message : α → Message) (operation : Operation α) :
    (reply message operation).run.Alike (Apart [] old other) :=
  Task.alike_bind (operate_alike operation) fun _ => trivial

theorem dispatch_alike (id : Option Nat) (request : Request) :
    (dispatch id request).run.Alike (Apart [] old other) := by
  cases request with
  | start | stop | reset | clean | cleanTemplates | compileFile | compileWorkspace | compileFolders | runCurrentFile
  | loadAllKnown | run | runIfStarted | quitDebug => exact reply_alike _ _
  | outputFile enabled => cases enabled <;> exact reply_alike _ _
  | runStatement statement =>
      refine Task.alike_bind (operate_alike _) fun compiled => Task.alike_bind (operate_alike _) fun submitted => ?_
      cases submitted with
      | none => trivial
      | some watch => exact Task.alike_bind (Task.alike_lift (answerLater_alike _)) fun _ => trivial
  | goto file offset =>
      refine Task.alike_bind (operate_alike _) fun watch => ?_
      exact Task.alike_bind (Task.alike_lift (answerLater_alike _)) fun _ => trivial
  | diagnostics =>
      have hlook : (Task.look fun bridge : Bridge => bridge.store.snapshot).Alike (Apart [] old other) :=
        Task.alike_look fun _ _ h => by
          obtain ⟨bridge, new, rfl, rfl⟩ := h
          rfl
      exact Task.alike_bind (Task.alike_lift hlook) fun _ => trivial
  | shutdown => trivial

theorem handle_alike (envelope : Envelope) : (handle envelope).Alike (Apart [] old other) := by
  refine Task.Alike.bind (dispatch_alike envelope.id envelope.request) fun result => ?_
  cases result with
  | error failure => exact send_alike _
  | ok answer =>
      cases answer with
      | none => trivial
      | some message => exact send_alike message

theorem receive_alike (line : String) : (receive line).Alike (Apart [] old other) := by
  unfold receive
  split
  · trivial
  · split
    · exact Task.Alike.bind (send_alike _) fun _ => trivial
    · exact Task.Alike.bind (handle_alike _) fun _ => trivial

theorem readLine_alike : readLine.Alike (Apart [] old other) := by
  have hcut {first second : Bridge} (h : Apart [] old other first second) : first.cutLine? = second.cutLine? := by
    obtain ⟨bridge, new, rfl, rfl⟩ := h
    rfl
  refine Task.alike_take (fun first second h hnone => ?_) fun first second h line left hsome => ?_
  · simpa [hcut h] using hnone
  · obtain ⟨cut, hfirst, hleft⟩ := Option.map_eq_some_iff.mp hsome
    obtain ⟨rfl, rfl⟩ := Prod.mk.inj hleft
    rw [hcut h] at hfirst
    exact ⟨_, Option.map_eq_some_iff.mpr ⟨cut, hfirst, rfl⟩,
      h.map (fun bridge => { bridge with input := cut.2 }) fun _ _ => rfl⟩

theorem finish_alike : finish.Alike (Apart [] old other) := by
  unfold finish
  have hlast : (Task.await fun bridge : Bridge => if bridge.pending.isEmpty then some () else none).Alike
      (Apart [] old other) :=
    Task.alike_await fun _ _ h => by
      obtain ⟨bridge, new, rfl, rfl⟩ := h
      rfl
  refine Task.Alike.bind (onRelay_alike _) fun _ => Task.Alike.bind (Task.alike_look fun _ _ h => ?_) fun start =>
    Task.Alike.bind (Task.alike_await fun _ _ h => ?_) fun drained => ?_
  · rw [h.relay_eq]
  · obtain ⟨bridge, new, rfl, rfl⟩ := h
    rfl
  · cases drained with
    | true => exact hlast
    | false => exact Task.Alike.bind (Task.alike_update fun _ _ h =>
        h.map (fun bridge => { bridge with forwarding := false }) fun _ _ => rfl) fun _ => hlast

/-- The loop never looks at what was sent. -/
theorem serve_alike (requests : Nat) : (serve requests).Alike (Apart [] old other) := by
  induction requests with
  | zero => exact Task.Alike.bind finish_alike fun _ => trivial
  | succ requests ih =>
      refine Task.Alike.bind readLine_alike fun line => ?_
      cases line with
      | none => exact Task.Alike.bind finish_alike fun _ => trivial
      | some bytes =>
          cases htext : lineText bytes with
          | error fault =>
              simp only [htext]
              exact Task.Alike.bind (Task.alike_update fun _ _ h => h.map abandon fun _ _ => rfl) fun _ => trivial
          | ok text =>
              simp only [htext]
              refine Task.Alike.bind (receive_alike text) fun stop => ?_
              cases stop with
              | true => exact Task.Alike.bind finish_alike fun _ => trivial
              | false => exact ih

end Steps

/-! ## The next line -/

/-- A line with its newline is the next, whatever comes after it. -/
theorem cutLine?_of_input_eq
    {bridge : Bridge} {run rest : Bytes} (hrun : LineBuffer.newline ∉ run)
    (hinput : bridge.input = run ++ [LineBuffer.newline] ++ rest) :
    bridge.cutLine? = some (some (run ++ [LineBuffer.newline]), rest) := by
  obtain ⟨hwhole, hruns, htail⟩ := LineBuffer.cut_runs rest
  have hcut : LineBuffer.Cut bridge.input (run :: LineBuffer.finishedRuns rest) (LineBuffer.unfinishedRun rest) := by
    refine ⟨?_, List.forall_mem_cons.mpr ⟨hrun, hruns⟩, htail⟩
    rw [hinput, List.flatMap_cons, List.append_assoc (run ++ [LineBuffer.newline]), ← hwhole]
  rw [cutLine?_eq, hcut.finishedRuns_eq, hcut.unfinishedRun_eq]
  simp only [← hwhole]

/-- What can be read can still be read when more has come in or the input was closed. -/
theorem Changes.cutLine?_eq
    {before after : Bridge} (h : before.Changes after) {line rest : Bytes}
    (hcut : before.cutLine? = some (some line, rest)) :
    ∃ bytes, after.input = before.input ++ bytes ∧ after.cutLine? = some (some line, rest ++ bytes) := by
  obtain ⟨⟨bytes, hbytes⟩, hclosed⟩ := h.arrives
  refine ⟨bytes, hbytes, ?_⟩
  rcases cutLine?_some hcut with ⟨run, rfl, hrun, hinput⟩ | ⟨hbefore, -, -, -⟩
  · refine cutLine?_of_input_eq hrun ?_
    rw [hbytes, hinput, List.append_assoc]
  · obtain ⟨hafter, hsame⟩ := hclosed hbefore
    have hnone : bytes = [] := by simpa [hbytes] using hsame
    rw [hnone, List.append_nil, ← hcut]
    simp only [cutLine?, hsame, hafter, hbefore]

/-- What is read of a line that is next. -/
theorem input_eq_of_cutLine?
    {bridge : Bridge} {line rest : Bytes} (hcut : bridge.cutLine? = some (some line, rest)) :
    bridge.input = line ++ rest := by
  rcases cutLine?_some hcut with ⟨run, -, -, hinput⟩ | ⟨-, rfl, rfl, -⟩
  · exact hinput
  · exact (List.append_nil _).symm

/-- The messages with which a line is answered that is no request. -/
inductive Unheeded (text : String) : List Message → Prop
  | blank (hblank : isBlankLine text = true) : Unheeded text []
  | invalid (hspoken : isBlankLine text = false) {fault : Json.Fault} (hread : Envelope.read text = .error fault) :
      Unheeded text [.error none ("invalid request: " ++ fault.message text)]

section Reading

variable {requests : Nat} {bridge : Bridge} {line rest : Bytes} {text : String}

theorem advance?_serve
    (hcut : bridge.cutLine? = some (some line, rest)) (htext : lineText line = .ok text) :
    (serve (requests + 1)).advance? bridge =
      some ((receive text).bind fun stop => if stop then finish.bind fun _ => .done (.ok ()) else serve requests,
        { bridge with input := rest }) := by
  have hread : readLine.advance? bridge = some (.done (some line), { bridge with input := rest }) := by
    simp [readLine, Task.take, Task.advance?, hcut]
  refine (Task.advance?_bind hread _).trans ?_
  simp only [Task.done_bind, htext]
  rfl

end Reading

theorem receive_of_blank {text : String} (hblank : isBlankLine text = true) : receive text = .done false :=
  if_pos hblank

theorem receive_of_invalid
    {text : String} (hspoken : isBlankLine text = false) {fault : Json.Fault}
    (hread : Envelope.read text = .error fault) :
    receive text = (send (invalidMessage fault text)).bind fun _ => .done false := by
  have hblank : ¬ (Text.trim text.toList).isEmpty = true := Bool.eq_false_iff.mp hspoken
  rw [receive, if_neg hblank, hread]
  rfl

/-- How a run that meets a line stands to one that does not. -/
inductive Standing (requests : Nat) (line : Bytes) (said : List Message) :
    Task Bridge (Except Utf8.Fault Unit) → Bridge → Task Bridge (Except Utf8.Fault Unit) → Bridge → Prop
  /-- The line is the next to be read. -/
  | unread {bridge plain : Bridge} {old : List Message} (hnext : bridge.cutLine? = some (some line, plain.input))
      (hapart : Apart line old old bridge plain) :
      Standing requests line said (serve (requests + 1)) bridge (serve requests) plain
  /-- The line was read, but its answer was not sent. -/
  | unanswered {message : Message} (hsaid : said = [message]) (bridge : Bridge) :
      Standing requests line said ((send message).bind fun _ => serve requests) bridge (serve requests) bridge
  /-- The line was answered, and both go on alike. -/
  | answered {task : Task Bridge (Except Utf8.Fault Unit)} {bridge plain : Bridge} {old : List Message}
      (hapart : Apart [] (said.reverse ++ old) old bridge plain) :
      Standing requests line said task bridge task plain

namespace Standing

variable {requests : Nat} {line : Bytes} {said : List Message} {text : String}
  {task left plainTask : Task Bridge (Except Utf8.Fault Unit)} {bridge plain after : Bridge}

/-- The line does nothing to the session. -/
theorem relay_eq
    (h : Standing requests line said task bridge plainTask plain) :
    bridge.relay = plain.relay := by
  cases h with
  | unread _ hapart => exact hapart.relay_eq
  | unanswered => rfl
  | answered hapart => exact hapart.relay_eq

theorem around
    (h : Standing requests line said task bridge plainTask plain) (hchange : bridge.Changes after) :
    ∃ last, plain.Changes last ∧ Standing requests line said task after plainTask last := by
  cases h with
  | unread hnext hapart =>
      obtain ⟨bytes, hinput, hcut⟩ := hchange.cutLine?_eq hnext
      obtain ⟨last, hlast, hafter⟩ := hapart.around hchange
      have hrest : last.input = plain.input ++ bytes := by
        have hwhole : line ++ last.input = line ++ (plain.input ++ bytes) := by
          rw [← hafter.input_eq, hinput, hapart.input_eq, List.append_assoc]
        exact List.append_cancel_left hwhole
      exact ⟨last, hlast, .unread (hrest ▸ hcut) hafter⟩
  | unanswered hsaid => exact ⟨after, hchange, .unanswered hsaid after⟩
  | answered hapart =>
      obtain ⟨last, hlast, hafter⟩ := hapart.around hchange
      exact ⟨last, hlast, .answered hafter⟩

/-- The next step of the loop reads the line, or answers it, or is one that both take. -/
theorem own
    (h : Standing requests line said task bridge plainTask plain)
    (htext : lineText line = .ok text) (hunheeded : Unheeded text said)
    (hheedless : ∀ old other, task.Alike (Apart [] old other))
    (htaken : task.advance? bridge = some (left, after)) :
    ∃ plainLeft last, Task.Moves Changes plainTask plain plainLeft last ∧
      Standing requests line said left after plainLeft last := by
  cases h with
  | @unread _ _ old hnext hapart =>
      rw [advance?_serve hnext htext] at htaken
      obtain ⟨rfl, rfl⟩ := Prod.mk.inj (Option.some.inj htaken)
      have hplain : { bridge with input := plain.input } = plain := by
        obtain ⟨base, new, rfl, rfl⟩ := hapart
        rfl
      rw [hplain]
      refine ⟨_, plain, .refl _ _, ?_⟩
      cases hunheeded with
      | blank hblank =>
          rw [receive_of_blank hblank]
          obtain ⟨base, new, rfl, rfl⟩ := hapart
          exact .answered ⟨base, new, rfl, rfl⟩
      | invalid hspoken hread =>
          rw [receive_of_invalid hspoken hread]
          exact .unanswered rfl plain
  | @unanswered message hsaid =>
      obtain ⟨rfl, rfl⟩ := Prod.mk.inj (Option.some.inj htaken)
      refine ⟨_, bridge, .refl _ _, .answered ⟨bridge, [], ?_, rfl⟩⟩
      rw [hsaid]
      rfl
  | answered hapart =>
      obtain ⟨last, hlast, hafter⟩ := (hheedless _ _).advance hapart htaken
      exact ⟨left, last, .own hlast (.refl _ _), .answered hafter⟩

/-- However far a run that meets the line has come, a run that does not has come as far. -/
theorem moves
    (h : Standing requests line said task bridge plainTask plain)
    (htext : lineText line = .ok text) (hunheeded : Unheeded text said)
    (hheedless : ∀ old other, task.Alike (Apart [] old other))
    (hmoves : Task.Moves Changes task bridge left after) :
    ∃ plainLeft last, Task.Moves Changes plainTask plain plainLeft last ∧
      Standing requests line said left after plainLeft last := by
  -- The induction is on the run that meets the line.
  induction hmoves generalizing plainTask plain with
  | refl task bridge => exact ⟨plainTask, plain, .refl _ _, h⟩
  | around hchange _ ih =>
      obtain ⟨between, hplain, hbetween⟩ := h.around hchange
      obtain ⟨plainLeft, last, hmore, hlast⟩ := ih hbetween hheedless
      exact ⟨plainLeft, last, .around hplain hmore, hlast⟩
  | own htaken _ ih =>
      obtain ⟨plainNext, between, hplain, hbetween⟩ := h.own htext hunheeded hheedless htaken
      obtain ⟨plainLeft, last, hmore, hlast⟩ := ih hbetween fun old other => (hheedless old other).rest htaken
      exact ⟨plainLeft, last, hplain.trans hmore, hlast⟩

end Standing

/-- The loop can read the line and answer it, whatever happens or does not happen beside it. -/
theorem exists_moves_of_unheeded
    {requests : Nat} {bridge : Bridge} {line rest : Bytes} {text : String} {said : List Message}
    (hnext : bridge.cutLine? = some (some line, rest)) (htext : lineText line = .ok text)
    (hunheeded : Unheeded text said) :
    Task.Moves Changes (serve (requests + 1)) bridge (serve requests)
      { bridge with input := rest, sent := said.reverse ++ bridge.sent } := by
  have hread : (serve (requests + 1)).advance? bridge = _ := advance?_serve hnext htext
  cases hunheeded with
  | blank hblank =>
      rw [receive_of_blank hblank] at hread
      exact .own hread (.refl _ _)
  | invalid hspoken hfault =>
      rw [receive_of_invalid hspoken hfault] at hread
      exact .own hread (.own rfl (.refl _ _))

/-! ## Where the loop stops -/

/-- The lines that the loop reads before it stops, the result, and the bridge at the end. -/
inductive Stops (last : Bridge) : Nat → List Bytes → Except Utf8.Fault Unit → Prop
  /-- It has read as many lines as it may. -/
  | spent : Stops last 0 [] (.ok ())
  /-- The input has come to its end. -/
  | ended {requests : Nat} (hclosed : last.inputClosed = true) (hinput : last.input = []) :
      Stops last (requests + 1) [] (.ok ())
  /-- The line asks to shut down. -/
  | shutdown {requests : Nat} {line : Bytes} {text : String} (htext : lineText line = .ok text)
      (hspoken : isBlankLine text = false) (hshutdown : asksShutdown text = true) :
      Stops last (requests + 1) [line] (.ok ())
  /-- The line is no text. -/
  | notText {requests : Nat} {line : Bytes} {fault : Utf8.Fault} (htext : lineText line = .error fault) :
      Stops last (requests + 1) [line] (.error fault)
  /-- After any other line it goes on. -/
  | goesOn {requests : Nat} {line : Bytes} {text : String} {read : List Bytes} {result : Except Utf8.Fault Unit}
      (htext : lineText line = .ok text) (hopen : isBlankLine text = true ∨ asksShutdown text = false)
      (hmore : Stops last requests read result) : Stops last (requests + 1) (line :: read) result

theorem Conversation.stops
    {requests : Nat} {deeds : List Deed} {result : Except Utf8.Fault Unit} (h : Conversation requests deeds result)
    {last : Bridge} (hended : Deed.ended ∈ deeds → last.inputClosed = true ∧ last.input = []) :
    Stops last requests (deeds.filterMap Deed.line?) result := by
  induction h with
  | spent => exact .spent
  | ended => exact .ended (hended (by simp)).1 (hended (by simp)).2
  | notText htext => exact .notText htext
  | blank htext hblank _ ih =>
      exact .goesOn htext (Or.inl hblank) (ih fun hmem => hended (List.mem_cons_of_mem _ hmem))
  | shutdown htext hspoken hshutdown hcare =>
      cases hcare <;> exact .shutdown htext hspoken hshutdown
  | request htext _ hopen hcare _ ih =>
      have hmore := ih fun hmem => hended (List.mem_cons_of_mem _ (List.mem_cons_of_mem _ hmem))
      cases hcare <;> exact .goesOn htext (Or.inr hopen) hmore

/-- **Lines that are no requests.**  A run of the loop that meets such a line stands to one that does not as `Standing`
says, with the same session, and every run that does not meet it has one that does and differs only in the messages.  And
the loop stops at the end of the input, after a request to shut down, when it has read as many lines as it may, and also
at a line that is no text. -/
theorem survival_law (requests : Nat) (bridge : Bridge) :
    (∀ {line rest : Bytes} {text : String} {said : List Message}, bridge.cutLine? = some (some line, rest) →
      lineText line = .ok text → Unheeded text said →
      (∀ left last, Task.Moves Changes (serve (requests + 1)) bridge left last →
        ∃ plainLeft plain, Task.Moves Changes (serve requests) { bridge with input := rest } plainLeft plain ∧
          Standing requests line said left last plainLeft plain ∧ last.relay = plain.relay) ∧
      (∀ left plain, Task.Moves Changes (serve requests) { bridge with input := rest } left plain →
        ∃ last later, Task.Moves Changes (serve (requests + 1)) bridge left last ∧
          plain.messages = bridge.messages ++ later ∧ last.messages = bridge.messages ++ said ++ later ∧
          last = { plain with sent := last.sent })) ∧
    (∀ {bytes : Bytes} {said : List Message} {result : Except Utf8.Fault Unit} {last : Bridge},
      Serving (serve requests) bridge bytes said (.done result) last →
      ∃ read, linesOf (bridge.input ++ bytes) = read ++ linesOf last.input ∧ Stops last requests read result) := by
  refine ⟨fun {line rest text said} hnext htext hunheeded =>
    ⟨fun left last hmoves => ?_, fun left plain hmoves => ?_⟩, fun {_ _ result _} hrun => ?_⟩
  · have hapart : Apart line bridge.sent bridge.sent bridge { bridge with input := rest } :=
      ⟨{ bridge with input := rest }, [], by simp [← input_eq_of_cutLine? hnext], rfl⟩
    have hstart : Standing requests line said (serve (requests + 1)) bridge (serve requests)
        { bridge with input := rest } :=
      .unread hnext hapart
    obtain ⟨plainLeft, plain, hplain, hstanding⟩ :=
      hstart.moves htext hunheeded (fun _ _ => serve_alike (requests + 1)) hmoves
    exact ⟨plainLeft, plain, hplain, hstanding, hstanding.relay_eq⟩
  · -- The line is read and answered at once, and from there the loop does what it did without it.
    have hapart : Apart [] bridge.sent (said.reverse ++ bridge.sent) { bridge with input := rest }
        { bridge with input := rest, sent := said.reverse ++ bridge.sent } :=
      ⟨{ bridge with input := rest }, [], rfl, rfl⟩
    obtain ⟨last, hlast, base, new, rfl, rfl⟩ :=
      Task.Moves.alike (fun hchange h => h.around hchange) (serve_alike requests) hapart hmoves
    refine ⟨_, new.reverse, (exists_moves_of_unheeded hnext htext hunheeded).trans hlast, ?_, ?_, rfl⟩
    · simp [messages]
    · simp [messages]
  · obtain ⟨deeds, -, hchronicle, hconversation⟩ := hrun.chronicle (serve_emits requests) (.start bridge)
    have hdeeds : Conversation requests deeds result := by simpa [Task.Emits] using hconversation
    have hread := hchronicle.lines [] fun _ => rfl
    simp only [List.append_nil, List.nil_append] at hread
    exact ⟨_, hread, hdeeds.stops fun hended => hchronicle.ended (by simpa using hended)⟩

namespace Unreadable

/-- A request to look at the diagnostics. -/
def request : Bytes :=
  Utf8.encode "\x7b\"command\":\"diagnostics\",\"id\":7\x7d\n"

/-- A bridge to which these bytes were sent. -/
def given (input : Bytes) : Bridge where
  relay := Relay.new {} {} ShutDown.machine {}
  input
  inputClosed := true

theorem survival_law_word :
    ∃ last, Task.Moves Changes (serve 3) (given (Utf8.encode "diagnostics\n" ++ request)) (.done (.ok ())) last ∧
      last.messages.map Message.id? = [none, some 7] := by
  have halone : ((serve 2).alone? (given request)).map
      (fun (result, plain) => (result.toOption, plain.messages.map Message.id?)) = some (some (), [some 7]) := by
    decide +kernel
  obtain ⟨⟨result, plain⟩, hplain, hends⟩ := Option.map_eq_some_iff.mp halone
  obtain ⟨hresult, hids⟩ := Prod.mk.inj hends
  obtain rfl : result = .ok () := by
    cases result with
    | error fault => cases hresult
    | ok value => rfl
  have hnext : (given (Utf8.encode "diagnostics\n" ++ request)).cutLine? =
      some (some (Utf8.encode "diagnostics\n"), request) := by decide +kernel
  have htext : lineText (Utf8.encode "diagnostics\n") = .ok "diagnostics" := by decide +kernel
  have hread : (Envelope.read "diagnostics").toOption.isSome = false := by decide +kernel
  cases hfault : Envelope.read "diagnostics" with
  | ok envelope => simp [hfault, Except.toOption] at hread
  | error fault =>
      have hunheeded : Unheeded "diagnostics" [_] := .invalid (by decide +kernel) hfault
      obtain ⟨last, later, hmoves, hlater, hmessages, -⟩ :=
        ((survival_law 2 _).1 hnext htext hunheeded).2 _ plain (Task.moves_of_alone? hplain)
      have hnone : (given (Utf8.encode "diagnostics\n" ++ request)).messages = [] := rfl
      rw [hnone, List.nil_append] at hlater hmessages
      exact ⟨last, hmoves, by rw [hmessages, ← hlater, List.map_append, hids]; rfl⟩

/-- A byte that is no text ends the loop; it is not answered, and the request after it is not read. -/
theorem serve_stops_at_byte :
    ∃ fault said last, Serving (serve 3) (given (255 :: 10 :: request)) [] said (.done (.error fault)) last ∧
      last.messages = [] ∧ last.input = request := by
  have hends : (attend 9 (serve 3) (given (255 :: 10 :: request))).1.value?.map Except.toOption = some none := by
    decide +kernel
  obtain ⟨result, hresult, hfault⟩ := Option.map_eq_some_iff.mp hends
  obtain ⟨said, hrun⟩ := exists_serving_attend 9 _ (given (255 :: 10 :: request)) (serve_emits 3)
  rw [Task.value?_eq_some hresult] at hrun
  cases result with
  | ok value => cases hfault
  | error fault => exact ⟨fault, said, _, hrun, by decide +kernel, by decide +kernel⟩

end Unreadable
end Bridge
end CompilerRelay
