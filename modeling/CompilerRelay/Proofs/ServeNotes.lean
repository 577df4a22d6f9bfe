import CompilerRelay.Proofs.OutputSources
import CompilerRelay.Proofs.RelayRun
import CompilerRelay.Proofs.ServeReplies

/-!
# What the loop notes

The loop and the forwarder of events share the store and the queue of messages.  What either does to them is noted.

**Form.**  `Bridge.Note`: an event was applied or its message queued, a snapshot was taken, an answer was queued.
`Bridge.Notes before after notes`: a step of the loop is these notes.  Most steps are none; they may bring new events.

**Algorithm.**  The loop takes a snapshot in one step and queues the answer in a later one.  Between the two it does
nothing else that is noted.

**Results.**
* `Relay.Evolves.events_extend`: whatever the relay becomes, what it emitted stays.
* `Bridge.serve_follows`: wherever the loop has come to, a snapshot that it answered with is the one that it took last.
-/

namespace CompilerRelay

/-! ## Events are only added -/

namespace Channel

theorem classify_events_extend (channel : Channel) (tree : FileTree) (line : String) :
    channel.events <+: (channel.classify tree line).events := by
  unfold classify
  split
  · exact ⟨_, (events_emit _ _).symm⟩
  · exact List.prefix_rfl
  · exact List.prefix_rfl

theorem handleLine_events_extend (channel : Channel) (tree : FileTree) (line : String) :
    channel.events <+: (channel.handleLine tree line).1.events := by
  have hemitted : (channel.handleLine tree line).1.events = (channel.classify tree line).events ++ [.output line] :=
    events_emit _ _
  rw [hemitted]
  exact (channel.classify_events_extend tree line).trans (List.prefix_append _ _)

theorem handleLines_events_extend (channel : Channel) (tree : FileTree) (lines : List String) :
    channel.events <+: (channel.handleLines tree lines).1.events := by
  induction lines generalizing channel tree with
  | nil => exact List.prefix_rfl
  | cons line rest ih => exact (channel.handleLine_events_extend tree line).trans (ih _ _)

theorem writeBytes_events_extend (channel : Channel) (tree : FileTree) (chunk : Bytes) :
    channel.events <+: (channel.writeBytes tree chunk).1.events :=
  handleLines_events_extend { channel with buffer := (channel.buffer.push chunk).2.takeDropped.2 } tree _

theorem emit_events_extend (channel : Channel) (event : Event) :
    channel.events <+: (channel.emit event).events := by
  rw [events_emit]
  exact List.prefix_append _ _

theorem perform_events_extend (state : Channel × FileTree) (act : ChannelAct) :
    state.1.events <+: (perform state act).1.events := by
  cases act with
  | writeBytes chunk => exact state.1.writeBytes_events_extend state.2 chunk
  | write text => exact state.1.writeBytes_events_extend state.2 (Utf8.encode text)
  | writeBlock text =>
      have hwritten : state.1.events <+: (state.1.write state.2 text).1.events :=
        state.1.writeBytes_events_extend state.2 (Utf8.encode text)
      simp only [perform, writeBlock]
      split
      · exact hwritten
      · exact hwritten.trans (writeBytes_events_extend _ _ (Utf8.encode "\n"))
  | line line => exact state.1.handleLine_events_extend state.2 line
  | finish => exact handleLines_events_extend { state.1 with buffer := state.1.buffer.flush.2 } state.2 _
  | clear => exact state.1.emit_events_extend .outputCleared
  | clearDiagnostics => exact emit_events_extend { state.1 with recorded := {} } .diagnosticsCleared
  | notify message => exact state.1.emit_events_extend (.notification message)
  | sessionStopped reason => exact state.1.emit_events_extend (.sessionStopped reason)
  | enableLog stamp =>
      simp only [perform, enableLog]
      split <;> exact List.prefix_rfl
  | install | clearWatch | abandon | forgetTemplates | locate | disableLog | files => exact List.prefix_rfl

theorem performAll_events_extend (state : Channel × FileTree) (acts : List ChannelAct) :
    state.1.events <+: (performAll state acts).1.events := by
  induction acts generalizing state with
  | nil => exact List.prefix_rfl
  | cons act rest ih => exact (perform_events_extend state act).trans (ih _)

end Channel

/-- Whatever the relay becomes, what it emitted stays. -/
theorem Relay.Evolves.events_extend
    {before after : Relay} (h : before.Evolves after) :
    before.channel.events <+: after.channel.events := by
  obtain ⟨acts, hacts⟩ := h.output
  have hprefix := Channel.performAll_events_extend (before.channel, before.files) acts
  rwa [hacts] at hprefix

namespace Message

/-- Whether a message is a snapshot. -/
def isSnapshot : Message → Bool
  | .snapshot _ _ _ _ _ => true
  | .ok _ _ | .error _ _ | .location _ _ _ _ | .statement _ _ _ | .output _ | .outputCleared | .diagnostics _ _
  | .diagnosticsCleared | .notification _ | .sessionStopped _ => false

theorem isReply_of_isSnapshot
    {message : Message} (h : message.isSnapshot = true) :
    message.isReply = true := by
  cases message <;> first | rfl | cases h

end Message

namespace Bridge

/-! ## Notes -/

/-- What is done to the store and to the queue of messages. -/
inductive Note where
  /-- The forwarder took an event and applied it to the store. -/
  | applied (event : Event)
  /-- The forwarder queued the message of an event. -/
  | queued (message : Message)
  /-- The loop took a snapshot. -/
  | looked (snapshot : Snapshot)
  /-- The loop queued an answer. -/
  | answered (message : Message)
  /-- A task of its own queued an answer. -/
  | late (message : Message)

namespace Note

/-- Whether the loop made a note. -/
def isOwn : Note → Bool
  | .looked _ | .answered _ => true
  | .applied _ | .queued _ | .late _ => false

/-- The event that was applied. -/
def event? : Note → Option Event
  | .applied event => some event
  | .queued _ | .looked _ | .answered _ | .late _ => none

/-- The message of an event that was queued. -/
def eventMessage? : Note → Option Message
  | .queued message => some message
  | .applied _ | .looked _ | .answered _ | .late _ => none

/-- The message that was queued. -/
def message? : Note → Option Message
  | .queued message | .answered message | .late message => some message
  | .applied _ | .looked _ => none

/-- After what the loop noted before, a snapshot that it answers with is the one that it took last. -/
def Fits (earlier : List Note) : Note → Prop
  | .answered message => message.isSnapshot = true →
      ∃ id snapshot, earlier.getLast? = some (.looked snapshot) ∧ message = Message.ofSnapshot id snapshot
  | .applied _ | .queued _ | .looked _ | .late _ => True

end Note

/-- A task that answers evolves the relay, and does not answer with a snapshot. -/
structure Plain (task : Task Relay Message) : Prop where
  within_evolves : task.Within Relay.Evolves
  yields : task.Yields fun message => message.isReply = true ∧ message.isSnapshot = false

/-- A step of which nothing is noted. -/
structure Unnoted (before after : Bridge) : Prop where
  store_eq : after.store = before.store
  applied_eq : after.applied = before.applied
  forwarded_eq : after.forwarded = before.forwarded
  sent_eq : after.sent = before.sent
  events_extend : before.events <+: after.events
  plain : (∀ task ∈ before.pending, Plain task) → ∀ task ∈ after.pending, Plain task

theorem Unnoted.refl (bridge : Bridge) : bridge.Unnoted bridge :=
  ⟨rfl, rfl, rfl, rfl, List.prefix_rfl, id⟩

/-- Only the relay has changed, and it has evolved. -/
theorem Unnoted.of_evolves
    {bridge : Bridge} {relay : Relay} (h : bridge.relay.Evolves relay) :
    bridge.Unnoted { bridge with relay } :=
  ⟨rfl, rfl, rfl, rfl, h.events_extend, id⟩

/-- A step of the loop is these notes. -/
inductive Notes : Bridge → Bridge → List Note → Prop
  | unnoted {before after : Bridge} (hunnoted : before.Unnoted after) : Notes before after []
  | looked (bridge : Bridge) : Notes bridge bridge [.looked bridge.store.snapshot]
  | answered (bridge : Bridge) {message : Message} (hreply : message.isReply = true) :
      Notes bridge (bridge.post message) [.answered message]

/-! ## Requests -/

section Requests

variable {α : Type} {own : List Note}

theorem onRelay_unnoted
    {task : Task Relay α} (h : task.Within Relay.Evolves) :
    (onRelay task).Within Unnoted :=
  h.zoom fun _ _ => .of_evolves

theorem onRelay_follows
    {task : Task Relay α} (h : task.Within Relay.Evolves) (hown : AtEach Note.Fits own) :
    (onRelay task).Follows Notes (AtEach Note.Fits) own fun more _ => more = own :=
  (onRelay_unnoted h).follows (fun _ _ => .unnoted) hown

/-- An answer may be queued once the snapshot in it, if there is one, has just been taken. -/
theorem send_follows
    {message : Message} (hreply : message.isReply = true)
    (hown : AtEach Note.Fits own) (hfits : Note.Fits own (.answered message)) :
    (send message).Follows Notes (AtEach Note.Fits) own fun more _ => AtEach Note.Fits more := by
  have hmore : AtEach Note.Fits (own ++ [.answered message]) := atEach_append_singleton.mpr ⟨hown, hfits⟩
  exact fun bridge _ => ⟨[.answered message], .answered bridge hreply, hmore, hmore⟩

/-- What is noted when a request was carried out: the answer may be queued. -/
def Prepared (more : List Note) : Except Failure (Option Message) → Prop
  | .ok (some message) => AtEach Note.Fits more ∧ message.isReply = true ∧ Note.Fits more (.answered message)
  | .ok none | .error _ => AtEach Note.Fits more

theorem fits_of_not_isSnapshot
    {message : Message} (hplain : message.isSnapshot = false) (earlier : List Note) :
    Note.Fits earlier (.answered message) := by
  intro hsnapshot
  rw [hplain] at hsnapshot
  cases hsnapshot

theorem prepared_of_isReply
    {message : Message} (hown : AtEach Note.Fits own)
    (hreply : message.isReply = true) (hplain : message.isSnapshot = false) :
    Prepared own (.ok (some message)) :=
  ⟨hown, hreply, fits_of_not_isSnapshot hplain own⟩

theorem reply_follows
    {message : α → Message} (hreply : ∀ value, (message value).isReply = true)
    (hplain : ∀ value, (message value).isSnapshot = false)
    {operation : Operation α} (h : (Demand.taskOf operation).Within Relay.Evolves)
    (hown : AtEach Note.Fits own) :
    (reply message operation).run.Follows Notes (AtEach Note.Fits) own Prepared := by
  refine Task.follows_bind (onRelay_follows (Task.Within.of_bind h) hown) ?_ ?_
  · rintro more value rfl
    exact prepared_of_isReply hown (hreply value) (hplain value)
  · rintro more failure rfl
    exact hown

/-- A task that is to answer later does not answer with a snapshot. -/
theorem answerLater_follows
    {task : Task Relay Message} (hplain : Plain task) (hown : AtEach Note.Fits own) :
    (do ExceptT.lift (answerLater task); return none : ExceptT Failure (Task Bridge) (Option Message)).run.Follows
      Notes (AtEach Note.Fits) own Prepared := by
  have hunnoted : (answerLater task).Within Unnoted := Task.within_update fun bridge => by
    refine ⟨rfl, rfl, rfl, rfl, List.prefix_rfl, fun hpending other hother => ?_⟩
    rcases List.mem_append.mp hother with hold | hnew
    · exact hpending other hold
    · rw [List.mem_singleton.mp hnew]
      exact hplain
  have hlater : (ExceptT.lift (answerLater task) : ExceptT Failure (Task Bridge) Unit).run.Follows
      Notes (AtEach Note.Fits) own fun more _ => more = own :=
    Task.follows_lift (hunnoted.follows (fun _ _ => .unnoted) hown) fun _ _ hmore => hmore
  refine Task.follows_bind hlater ?_ ?_
  · rintro more _ rfl
    exact hown
  · rintro more failure rfl
    exact hown

theorem plain_answerOf
    {id : Option Nat} {message : α → Message} (hreply : ∀ value, (message value).isReply = true)
    (hplain : ∀ value, (message value).isSnapshot = false)
    {operation : Operation α} (h : operation.run.Within Relay.Evolves) :
    Plain (answerOf id message operation) where
  within_evolves := h.bind fun result => by cases result <;> trivial
  yields := Task.yields_bind operation.run fun result => by
    cases result with
    | ok value => exact ⟨hreply value, hplain value⟩
    | error failure => exact ⟨rfl, rfl⟩

theorem runStatement_follows (id : Option Nat) (request : StatementRequest) (hown : AtEach Note.Fits own) :
    (runStatement id request).run.Follows Notes (AtEach Note.Fits) own Prepared := by
  refine Task.follows_bind (onRelay_follows (Relay.compile_within _ _ _) hown) ?_ ?_
  · rintro more compiled rfl
    refine Task.follows_bind (onRelay_follows (Relay.submit_within _) hown) ?_ ?_
    · rintro more (_ | watch) rfl
      · exact prepared_of_isReply hown rfl rfl
      · have hplain : Plain (answerOf id (matchedMessage id) watch.wait) :=
          plain_answerOf (fun _ => rfl) (fun _ => rfl) (Relay.wait_within watch)
        exact answerLater_follows hplain hown
    · rintro more failure rfl
      exact hown
  · rintro more failure rfl
    exact hown

theorem lookUp_follows (id : Option Nat) (file : Path) (offset : Nat) (hown : AtEach Note.Fits own) :
    (lookUp id file offset).run.Follows Notes (AtEach Note.Fits) own Prepared := by
  refine Task.follows_bind (onRelay_follows (Relay.submitGoto_within file offset) hown) ?_ ?_
  · rintro more watch rfl
    have hplain : Plain (answerOf id (Message.ofLocation id) watch.waitLocation) :=
      plain_answerOf (fun _ => rfl) (fun _ => rfl) (Relay.waitLocation_within watch)
    exact answerLater_follows hplain hown
  · rintro more failure rfl
    exact hown

/-- The snapshot is taken in one step; the answer with it is then the one that may be queued. -/
theorem dispatch_diagnostics_follows (id : Option Nat) (hown : AtEach Note.Fits own) :
    (dispatch id .diagnostics).run.Follows Notes (AtEach Note.Fits) own Prepared := by
  intro bridge _
  have hmore : AtEach Note.Fits (own ++ [.looked bridge.store.snapshot]) :=
    atEach_append_singleton.mpr ⟨hown, trivial⟩
  refine ⟨[.looked bridge.store.snapshot], .looked bridge, hmore, hmore, rfl, fun _ => ?_⟩
  exact ⟨id, bridge.store.snapshot, List.getLast?_concat, rfl⟩

theorem dispatch_follows (id : Option Nat) (request : Request) (hown : AtEach Note.Fits own) :
    (dispatch id request).run.Follows Notes (AtEach Note.Fits) own Prepared := by
  have hdone {β : Type} {operation : Operation β} (h : (Demand.taskOf operation).Within Relay.Evolves) :
      (reply (done id) operation).run.Follows Notes (AtEach Note.Fits) own Prepared :=
    reply_follows (fun _ => rfl) (fun _ => rfl) h hown
  have hpath {operation : Operation Path} (h : (Demand.taskOf operation).Within Relay.Evolves) :
      (reply (Message.okWithPath id) operation).run.Follows Notes (AtEach Note.Fits) own Prepared :=
    reply_follows (fun _ => rfl) (fun _ => rfl) h hown
  cases request with
  | start => exact hdone (Demand.within_evolves .start)
  | stop => exact hdone (Demand.within_evolves .stop)
  | reset => exact hdone (Demand.within_evolves .reset)
  | clean => exact hdone (Demand.within_evolves .clean)
  | cleanTemplates => exact hdone (Demand.within_evolves .cleanTemplates)
  | compileFile file => exact hpath (Demand.within_evolves (.compileFile file))
  | compileWorkspace directory => exact hdone (Demand.within_evolves (.compileFolders [directory]))
  | compileFolders directories => exact hdone (Demand.within_evolves (.compileFolders directories))
  | runCurrentFile file => exact hpath (Demand.within_evolves (.runFile file))
  | loadAllKnown file => exact hdone (Demand.within_evolves (.loadAll file))
  | run code => exact hdone (Demand.within_evolves (.run code))
  | runIfStarted code => exact hdone (Demand.within_evolves (.runIfStarted code))
  | runStatement request => exact runStatement_follows id request hown
  | goto file offset => exact lookUp_follows id file offset hown
  | quitDebug => exact hdone (Demand.within_evolves .quitDebug)
  | outputFile enabled =>
      cases enabled with
      | true => exact hpath (Demand.within_evolves .startLog)
      | false => exact hdone (Demand.within_evolves .stopLog)
  | diagnostics => exact dispatch_diagnostics_follows id hown
  | shutdown => exact prepared_of_isReply hown rfl rfl

theorem handle_follows (envelope : Envelope) (hown : AtEach Note.Fits own) :
    (handle envelope).Follows Notes (AtEach Note.Fits) own fun more _ => AtEach Note.Fits more := by
  refine Task.Follows.bind (dispatch_follows envelope.id envelope.request hown) fun more result hprepared => ?_
  cases result with
  | error failure => exact send_follows rfl hprepared (fits_of_not_isSnapshot rfl more)
  | ok answer =>
      cases answer with
      | none => exact hprepared
      | some message =>
          obtain ⟨hmore, hreply, hfits⟩ := hprepared
          exact send_follows hreply hmore hfits

theorem receive_follows (line : String) (hown : AtEach Note.Fits own) :
    (receive line).Follows Notes (AtEach Note.Fits) own fun more _ => AtEach Note.Fits more := by
  unfold receive
  split
  · exact hown
  · split
    · exact (send_follows rfl hown (fits_of_not_isSnapshot rfl own)).bind fun _ _ hmore => hmore
    · next envelope _ => exact (handle_follows envelope hown).bind fun _ _ hmore => hmore

end Requests

/-! ## The loop -/

section Loop

variable {α : Type} {own : List Note}

theorem look_follows (view : Bridge → α) (hown : AtEach Note.Fits own) :
    (Task.look view).Follows Notes (AtEach Note.Fits) own fun more _ => more = own :=
  (Task.within_look Unnoted.refl view).follows (fun _ _ => .unnoted) hown

theorem await_follows (poll : Bridge → Option α) (hown : AtEach Note.Fits own) :
    (Task.await poll).Follows Notes (AtEach Note.Fits) own fun more _ => more = own :=
  (Task.within_await Unnoted.refl poll).follows (fun _ _ => .unnoted) hown

theorem readLine_follows (hown : AtEach Note.Fits own) :
    readLine.Follows Notes (AtEach Note.Fits) own fun more _ => more = own := by
  have hunnoted : readLine.Within Unnoted := by
    refine ⟨fun bridge _ => ?_, fun _ _ => trivial⟩
    cases hcut : bridge.cutLine? with
    | none => simpa [hcut] using Unnoted.refl bridge
    | some cut => simpa [hcut] using ⟨rfl, rfl, rfl, rfl, List.prefix_rfl, id⟩
  exact hunnoted.follows (fun _ _ => .unnoted) hown

theorem finish_follows (hown : AtEach Note.Fits own) :
    finish.Follows Notes (AtEach Note.Fits) own fun more _ => AtEach Note.Fits more := by
  unfold finish
  refine (onRelay_follows Relay.endSession_within hown).bind ?_
  rintro more _ rfl
  refine (look_follows _ hown).bind ?_
  rintro more _ rfl
  refine (await_follows _ hown).bind ?_
  rintro more drained rfl
  have hlast := (await_follows (fun bridge : Bridge => if bridge.pending.isEmpty then some () else none) hown).mono
    fun more _ hmore => show AtEach Note.Fits more from hmore ▸ hown
  cases drained with
  | true => exact hlast
  | false =>
      have hunnoted : (Task.update fun bridge : Bridge => { bridge with forwarding := false }).Within Unnoted :=
        Task.within_update fun _ => ⟨rfl, rfl, rfl, rfl, List.prefix_rfl, id⟩
      refine (hunnoted.follows (fun _ _ => .unnoted) hown).bind ?_
      rintro more _ rfl
      exact hlast

theorem abandon_follows (hown : AtEach Note.Fits own) :
    (Task.update abandon).Follows Notes (AtEach Note.Fits) own fun more _ => more = own := by
  have hunnoted : (Task.update abandon).Within Unnoted := Task.within_update fun bridge =>
    .of_evolves ((Relay.Evolves.of_slot bridge.relay .stopped bridge.relay.clock).trans (.dropStart _))
  exact hunnoted.follows (fun _ _ => .unnoted) hown

/-- Wherever the loop has come to, a snapshot that it answered with is the one that it took last. -/
theorem serve_follows (requests : Nat) (hown : AtEach Note.Fits own) :
    (serve requests).Follows Notes (AtEach Note.Fits) own fun more _ => AtEach Note.Fits more := by
  induction requests generalizing own with
  | zero => exact (finish_follows hown).bind fun _ _ hmore => hmore
  | succ requests ih =>
      refine (readLine_follows hown).bind ?_
      rintro more (_ | bytes) rfl
      · exact (finish_follows hown).bind fun _ _ hmore => hmore
      · cases htext : lineText bytes with
        | error fault =>
            simp only [htext]
            refine (abandon_follows hown).bind ?_
            rintro more _ rfl
            exact hown
        | ok line =>
            simp only [htext]
            refine (receive_follows line hown).bind fun more stop hmore => ?_
            cases stop with
            | true => exact (finish_follows hmore).bind fun _ _ hlast => hlast
            | false => exact ih hmore

end Loop
end Bridge
end CompilerRelay
