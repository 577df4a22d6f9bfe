import CompilerRelay.Proofs.RestartIsolation
import CompilerRelay.Proofs.TemplateAnswers
import CompilerRelay.Proofs.WatchCleanup
import CompilerRelay.Proofs.WatchWaits

/-!
# Looking a definition up

From the request for a definition to the place that is told, and to the files that diagnostics are published against.

**Input.**  A run of the request that ends with a watch; whatever is done to the output from the moment at which the
watch was installed, as long as nobody takes the watch away; and every run of the wait for it.

**Form.**  `Relay.definitionIn line root isThere`: what a line says of the place of a definition, by a table of the
templates that are there.

**Invariant.**  Between two moments at which the answers on templates are forgotten, a template that was looked up has
one answer, so that a place and a diagnostic of one file are told of one path.

**Results.**
* `Relay.exists_install_of_submitGoto`: the moment at which the watch was installed.
* `Relay.definition_law`: the first line with the marker settles the request, and the wait ends with what it says.
-/

namespace CompilerRelay

/-! ## What a line says -/

/-- Whether a line has the marker of definitions. -/
def OutputLine.hasDefinitionMarker (line : String) : Bool :=
  definitionStart.isPrefixOf line.toList

namespace Relay

/-- What a line says of the place of a definition, by a table of the templates that are there. -/
def definitionIn (line : String) (root : Path) (isThere : Path → Bool) : Except Failure Location :=
  match OutputLine.parse line root with
  | .definition named => .ok { named with path := named.path.edited isThere }
  | .diagnostic _ _ | .plain => .error (.definition line)

theorem locate_fst (line : String) (relay : Relay) :
    (locate line relay).1 = definitionIn line relay.channel.root (relay.channel.origins.isThere relay.files) := by
  unfold locate definitionIn
  cases OutputLine.parse line relay.channel.root with
  | definition named => simp only [Channel.editedLocation, TemplateOrigins.origin_fst]
  | diagnostic | plain => rfl

/-- Locating a definition leaves an answer on the template of its file: the one that was given. -/
theorem find?_locate
    {line : String} {relay : Relay} {named : Location} {template : Path}
    (hparse : OutputLine.parse line relay.channel.root = .definition named)
    (htemplate : named.path.template? = some template) :
    (locate line relay).2.channel.origins.known.find? template =
      some (relay.channel.origins.isThere relay.files template) := by
  unfold locate
  rw [hparse]
  exact TemplateOrigins.exists_answer relay.channel.origins relay.files htemplate

/-! ## The watch -/

/-- What is left of a request for a definition when its watch is installed. -/
def sendRefers (file : Path) (offset : Nat) (watch : PendingWatch) : Operation PendingWatch := do
  sendWatched (.refers file offset) watch
  return watch

/-- A relay in which a watch for a definition was installed. -/
def awaiting (pattern : Pattern) (relay : Relay) : Relay :=
  { relay with channel := (relay.channel.install pattern.occursIn none).2 }

/-- The moment at which the watch of a request for a definition was installed. -/
theorem exists_install_of_submitGoto
    {before submitted : Relay} {file : Path} {offset : Nat} {watch : PendingWatch}
    (hmoves : Task.Moves Evolves (submitGoto file offset).run before (.done (.ok watch)) submitted) :
    ∃ pattern asking prior left, Pattern.compile definitionPattern = .ok pattern ∧
      Task.Moves Evolves (submitGoto file offset).run before asking prior ∧
      asking.advance? prior = some (left, prior.awaiting pattern) ∧
      Task.Moves Evolves left (prior.awaiting pattern) (.done (.ok watch)) submitted ∧
      watch.id = prior.channel.watch.lastId + 1 := by
  obtain ⟨pattern, hpattern, -⟩ := exists_definitionPattern
  have hsplit : submitGoto file offset = ensureRunning >>= fun _ =>
      attempt .invalidPattern (Pattern.compile definitionPattern) >>= fun pattern =>
        watchFor pattern none >>= sendRefers file offset := rfl
  rw [hpattern] at hsplit
  rw [hsplit] at hmoves ⊢
  obtain ⟨⟨⟩, running, hensured, hrest⟩ := Task.Moves.of_bind_ok hmoves
  obtain ⟨prior, hprior, hlast⟩ := Task.Moves.of_act_bind
    (fun id => (look (·.config.watchTimeout) >>= fun limit => sendRefers file offset ⟨id, limit⟩).run) hrest
  refine ⟨pattern, _, prior, _, hpattern, (hensured.bind _).trans (hprior.beside _), rfl, hlast, ?_⟩
  obtain ⟨limit, looked, -, hsent⟩ := Task.Moves.of_bind_ok hlast
  obtain ⟨-, sent, -, hend⟩ := Task.Moves.of_bind_ok hsent
  cases hend.eq_of_done
  rfl

/-- How a watch for a definition is settled by lines: the first with the marker matches, and no other counts. -/
theorem findSome?_settlementBy?_definition
    {pattern : Pattern} (hpattern : Pattern.compile definitionPattern = .ok pattern) (id : Nat) (lines : List String) :
    (lines.map WatchRequest.offer).findSome? (Watch.settlementBy? ⟨id, pattern.occursIn, none⟩) =
      (lines.find? OutputLine.hasDefinitionMarker).map fun line => .answered (.matched line) := by
  induction lines with
  | nil => rfl
  | cons line rest ih =>
      rw [List.map_cons, List.findSome?_cons, List.find?_cons, Watch.settlementBy?, Watch.outcomeOf?_definition hpattern]
      cases hmarked : OutputLine.hasDefinitionMarker line with
      | true =>
          rw [if_pos (List.isPrefixOf_iff_prefix.mp hmarked)]
          rfl
      | false =>
          have hother : ¬ OutputLine.definitionStart <+: line.toList := fun hline =>
            Bool.eq_false_iff.mp hmarked (List.isPrefixOf_iff_prefix.mpr hline)
          rw [if_neg hother]
          exact ih

/-! ## The wait -/

variable {watch : PendingWatch} {line : String} {begun moment : Relay}

/-- In a run of a wait for a watch that is settled in time, every moment is in time. -/
theorem inTime_of_goesOn
    (hreachable : begun.channel.Reachable)
    (hsettled : moment.channel.watch.settlement? watch.id = some (.answered (.matched line)))
    (hearly : begun.Settled watch.id ∨ moment.clock < begun.clock + watch.limit)
    {relay : Relay} (hbefore : begun.GoesOn relay) (hafter : relay.GoesOn moment) :
    InTime watch (.answered (.matched line)) begun relay := by
  have hlater := hbefore.evolves.channel_reachable hreachable
  refine ⟨hbefore.clock_le, ?_⟩
  cases hnow : relay.channel.watch.settlement? watch.id with
  | some settlement => exact .inl ((hafter.evolves.settlement?_eq hlater hnow).symm.trans hsettled)
  | none =>
      refine .inr ⟨rfl, hafter.clock_le.trans_lt (hearly.resolve_left fun hstart => ?_)⟩
      obtain ⟨settlement, hstart⟩ := Option.isSome_iff_exists.mp hstart
      rw [hbefore.evolves.settlement?_eq hreachable hstart] at hnow
      cases hnow

/-- A wait that came to its end was told the line that settled its watch, if the watch was settled in time. -/
theorem exists_line_of_waitLocation
    (hreachable : begun.channel.Reachable)
    (hsettled : moment.channel.watch.settlement? watch.id = some (.answered (.matched line)))
    (hearly : begun.Settled watch.id ∨ moment.clock < begun.clock + watch.limit)
    {waiting : Task Relay (Except Failure Location)} {result : Except Failure Location} {later : Relay}
    (hfirst : Task.Moves GoesOn watch.waitLocation.run begun waiting moment)
    (hsecond : Task.Moves GoesOn waiting moment (.done result) later) :
    ∃ between, Task.Moves GoesOn watch.wait.run begun (.done (.ok line)) between ∧
      Task.Moves GoesOn (act (locate line)).run between (.done result) later := by
  have hintime {relay : Relay} (hbefore : begun.GoesOn relay) (hafter : relay.GoesOn moment) :
      InTime watch (.answered (.matched line)) begun relay :=
    inTime_of_goesOn hreachable hsettled hearly hbefore hafter
  have hgives := gives_wait watch line begun
  have hfollow (line : String) : (act (locate line)).run.Within GoesOn := Task.within_act (GoesOn.locate line)
  rcases Task.Moves.of_bind hfirst with ⟨rest, rfl, hwaits⟩ | ⟨value, between, hwaits, hlocates⟩
  · -- At the moment the line is still waited for, or has just been taken in.
    obtain ⟨value, between, hrest, hlocates⟩ := hsecond.of_bind_done
    obtain ⟨hmoment, hwithin⟩ := goesOn_of_moves hwaits (wait_goesOn watch)
    have hleft := gives_of_moves hwaits (wait_goesOn watch) hgives fun _ => hintime
    have hvalue : (Task.done value : Task Relay _).Gives (InTime watch (.answered (.matched line)) begun)
        fun result => result = .ok line := by
      refine gives_of_moves hrest hwithin hleft fun relay hafter _ => ?_
      have hlater := hmoment.evolves.channel_reachable hreachable
      exact ⟨(hmoment.trans hafter).clock_le, .inl (hafter.evolves.settlement?_eq hlater hsettled)⟩
    obtain rfl : value = .ok line := hvalue
    exact ⟨between, hwaits.trans hrest, hlocates⟩
  · -- The line was taken in before.
    have hbetween : between.GoesOn moment := by
      refine (goesOn_of_moves hlocates ?_).1
      cases value with
      | ok line => exact hfollow line
      | error failure => trivial
    have hvalue : (Task.done value : Task Relay _).Gives (InTime watch (.answered (.matched line)) begun)
        fun result => result = .ok line :=
      gives_of_moves hwaits (wait_goesOn watch) hgives fun relay hbefore hafter =>
        hintime hbefore (hafter.trans hbetween)
    obtain rfl : value = .ok line := hvalue
    exact ⟨between, hwaits, hlocates.trans hsecond⟩

/-- However others go on from a moment of a wait, it is not stuck, and it ends with what the line says of the templates
when it is looked up. -/
structure FindsOut (watch : PendingWatch) (line : String) (begun : Relay)
    (waiting : Task Relay (Except Failure Location)) (moment : Relay) : Prop where
  exists_alone? : ∀ left later, Task.Moves GoesOn waiting moment left later →
    ∃ result after, left.alone? later = some (result, after)
  exists_located : ∀ result later, Task.Moves GoesOn waiting moment (.done result) later →
    ∃ located, Task.Moves GoesOn watch.wait.run begun (.done (.ok line)) located ∧
      (locate line located).2.GoesOn later ∧
      result = definitionIn line located.channel.root (located.channel.origins.isThere located.files)

theorem findsOut_of_settled
    (hreachable : begun.channel.Reachable)
    (hsettled : moment.channel.watch.settlement? watch.id = some (.answered (.matched line)))
    (hearly : begun.Settled watch.id ∨ moment.clock < begun.clock + watch.limit)
    {waiting : Task Relay (Except Failure Location)}
    (hmoves : Task.Moves GoesOn watch.waitLocation.run begun waiting moment) :
    FindsOut watch line begun waiting moment := by
  obtain ⟨hmoment, hwaiting⟩ := goesOn_of_moves hmoves (waitLocation_goesOn watch)
  refine ⟨fun left later hrest => ?_, fun result later hrest => ?_⟩
  · obtain ⟨hlater, hleft⟩ := goesOn_of_moves hrest hwaiting
    have hunblocked := ((unblocked_waitLocation watch).moves hmoves).moves hrest
    refine hunblocked.exists_alone? hleft moment.GoesOn (fun _ _ hstep hbefore => hbefore.trans hstep) ?_ hlater
    intro relay hafter
    exact Option.isSome_iff_exists.mpr
      ⟨_, hafter.evolves.settlement?_eq (hmoment.evolves.channel_reachable hreachable) hsettled⟩
  · obtain ⟨between, hwaits, hlocates⟩ := exists_line_of_waitLocation hreachable hsettled hearly hmoves hrest
    obtain ⟨located, hbetween, hend⟩ := Task.Moves.of_act_bind .done hlocates
    have hlast := (goesOn_of_moves hend (Task.within_done _)).1
    refine ⟨located, hwaits.trans (hbetween.beside _), hlast, ?_⟩
    rw [← locate_fst]
    exact Task.done.inj hend.eq_of_done

/-! ## The law -/

/-- As long as nobody takes a watch for a definition away, the first line with the marker settles it, and no other
does. -/
theorem exists_lines_of_leaves
    {prior : Relay} (hprior : prior.channel.Reachable) {pattern : Pattern}
    (hpattern : Pattern.compile definitionPattern = .ok pattern) {id : Nat} (hid : id = prior.channel.watch.lastId + 1)
    {acts : List ChannelAct} {state : Channel × FileTree}
    (hacts : Channel.performAll ((prior.awaiting pattern).channel, (prior.awaiting pattern).files) acts = state)
    (hleaves : ∀ act ∈ acts, act.leaves id = true) :
    ∃ lines, state.1.shown = (prior.awaiting pattern).channel.shown ++ lines ∧
      state.1.watch.settlement? id =
        (lines.find? OutputLine.hasDefinitionMarker).map fun line => .answered (.matched line) := by
  have hinstalled : (prior.awaiting pattern).channel.Reachable :=
    hprior.performAll prior.files [.install pattern.occursIn none]
  have hactive : (prior.awaiting pattern).channel.watch.active = some ⟨id, pattern.occursIn, none⟩ := by
    rw [hid]
    rfl
  have honly : (prior.awaiting pattern).channel.watch.Only id := fun other hother => by
    rw [hactive] at hother
    exact congrArg Watch.id (Option.some.inj hother).symm
  obtain ⟨lines, hoffers⟩ := Channel.performAll_leaves
    ((prior.awaiting pattern).channel, (prior.awaiting pattern).files) honly hleaves
  rw [hacts] at hoffers
  obtain ⟨hshown, hwatch⟩ : (prior.awaiting pattern).channel.Offers state.1 lines := hoffers
  obtain ⟨watches, htracks⟩ := hinstalled.tracks
  have hsettlement := WatchSlot.settlement?_performAll_of_active htracks hactive (lines.map .offer)
  rw [findSome?_settlementBy?_definition hpattern, ← hwatch] at hsettlement
  exact ⟨lines, hshown, hsettlement⟩

/-- A diagnostic of the file of a definition is published against the path that is told of it, whichever is first,
unless all is forgotten in between. -/
theorem publishes_of_locate
    {line : String} {located : Relay} {named : Location}
    (hparse : OutputLine.parse line located.channel.root = .definition named)
    {acts : List ChannelAct} (hacts : ∀ act ∈ acts, act.isForgetting = false)
    {state : Channel × FileTree} {report : String} {diagnostic : Diagnostic}
    (hreport : OutputLine.parse report state.1.root = .diagnostic named.path diagnostic)
    (horder : Channel.performAll ((locate line located).2.channel, (locate line located).2.files) acts = state ∨
      Channel.performAll (state.1.handleLine state.2 report) acts = (located.channel, located.files)) :
    state.1.Publishes state.2 report (named.path.edited (located.channel.origins.isThere located.files)) := by
  have hpublished := Channel.publishes_of_diagnostic hreport state.2
  have hsame : named.path.edited (state.1.origins.isThere state.2) =
      named.path.edited (located.channel.origins.isThere located.files) := by
    rcases horder with rfl | hlater
    · exact Channel.edited_eq_of_known (fun template htemplate =>
        Channel.find?_performAll _ (find?_locate hparse htemplate) hacts) _
    · refine (Channel.edited_eq_of_known (fun template htemplate => ?_) _).symm
      have hknown := Channel.find?_performAll
        (state.1.handleLine state.2 report) (Channel.find?_of_diagnostic hreport state.2 htemplate) hacts
      rwa [hlater] at hknown
  rwa [hsame] at hpublished

/-- **Looking a definition up.**  The first line with the marker settles the request, and the wait ends with what that
line says; a diagnostic of the same file is published against the same path. -/
theorem definition_law
    {before submitted : Relay} (hreachable : before.Reachable) {file : Path} {offset : Nat} {watch : PendingWatch}
    (hsubmits : Task.Moves Evolves (submitGoto file offset).run before (.done (.ok watch)) submitted) :
    -- At some moment of the run the watch is installed.
    (∃ asking prior left installed,
      Task.Moves Evolves (submitGoto file offset).run before asking prior ∧
      asking.advance? prior = some (left, installed) ∧ InstalledBetween watch.id prior installed ∧
      Task.Moves Evolves left installed (.done (.ok watch)) submitted ∧
      -- As long as nobody takes it away from then on, the first line with the marker settles it, and no other does.
      ∀ (acts : List ChannelAct) (heard : Relay), Channel.performAll (installed.channel, installed.files) acts = (heard.channel, heard.files) →
        (∀ act ∈ acts, act.leaves watch.id = true) →
        ∃ lines, heard.channel.shown = installed.channel.shown ++ lines ∧
          heard.channel.watch.settlement? watch.id =
            (lines.find? OutputLine.hasDefinitionMarker).map (fun line => .answered (.matched line)) ∧
          ∀ line, lines.find? OutputLine.hasDefinitionMarker = some line →
            (∀ root, (OutputLine.parse line root).isDiagnostic = false) ∧
            -- A wait to which it comes in time finds out what it says.
            ∀ (begun : Relay) waiting moment, installed.Evolves begun → heard.Evolves moment →
              Task.Moves GoesOn watch.waitLocation.run begun waiting moment →
              (begun.Settled watch.id ∨ moment.clock < begun.clock + watch.limit) →
              FindsOut watch line begun waiting moment) ∧
    -- The path of a place is the one that diagnostics of its file are published against, until all is forgotten.
    ∀ line located named, OutputLine.parse line located.channel.root = .definition named →
      ∃ location, (locate line located).1 = .ok location ∧
        location.line = named.line ∧ location.column = named.column ∧
        ∀ (acts : List ChannelAct) (state : Channel × FileTree) (report : String) (diagnostic : Diagnostic),
          (∀ act ∈ acts, act.isForgetting = false) →
          OutputLine.parse report state.1.root = .diagnostic named.path diagnostic →
          (Channel.performAll ((locate line located).2.channel, (locate line located).2.files) acts = state ∨
            Channel.performAll (state.1.handleLine state.2 report) acts = (located.channel, located.files)) →
          state.1.Publishes state.2 report location.path := by
  constructor
  · obtain ⟨pattern, asking, prior, left, hpattern, hasked, hstep, hrest, hid⟩ := exists_install_of_submitGoto hsubmits
    have hprior : prior.channel.Reachable :=
      (hasked.related Evolves.refl Evolves.trans (fun h => h)
        (submitGoto_within file offset)).1.channel_reachable hreachable.channel_reachable
    have hinstalled : (prior.awaiting pattern).channel.Reachable :=
      hprior.performAll prior.files [.install pattern.occursIn none]
    refine ⟨asking, prior, left, prior.awaiting pattern, hasked, hstep, ⟨by omega, hid.le⟩, hrest,
      fun acts heard hacts hleaves => ?_⟩
    obtain ⟨lines, hshown, hsettlement⟩ := exists_lines_of_leaves hprior hpattern hid hacts hleaves
    refine ⟨lines, hshown, hsettlement, fun line hline => ⟨fun root => ?_, ?_⟩⟩
    · have hmarked : OutputLine.hasDefinitionMarker line = true := List.find?_some hline
      exact OutputLine.isDiagnostic_of_definition (List.isPrefixOf_iff_prefix.mp hmarked) root
    · intro begun waiting moment hbegun hheard hmoves hearly
      rw [hline] at hsettlement
      have hreached : heard.channel.Reachable := by
        have hperformed := hinstalled.performAll (prior.awaiting pattern).files acts
        rwa [hacts] at hperformed
      exact findsOut_of_settled (hbegun.channel_reachable hinstalled) (hheard.settlement?_eq hreached hsettlement) hearly hmoves
  · intro line located named hparse
    refine ⟨{ named with path := named.path.edited (located.channel.origins.isThere located.files) }, ?_, rfl, rfl, ?_⟩
    · rw [locate_fst, definitionIn, hparse]
    · intro acts state report diagnostic hacts hreport horder
      exact publishes_of_locate hparse hacts hreport horder

namespace DefinitionRequest

open UnnoticedExit (started started_reachable)

/-- The relay when a request for a definition was sent. -/
def submitted : Relay := ((submitGoto ⟨"/a.cm"⟩ 4).run.alone? started).elim started Prod.snd

/-- An answer, with blanks and a file that is relative. -/
def reply : String := "[DEFINITION: w.cm : 2 : +3] here"

/-- A line without the marker, the answer, and another line with the marker. -/
def lines : List String := ["DEFINITION:w.cm:1:1]", reply, "[DEFINITION:v.cm:1:1]"]

theorem definition_law_reply :
    started.Reachable ∧
    Task.Moves Evolves (submitGoto ⟨"/a.cm"⟩ 4).run started (.done (.ok ⟨1, 2000⟩)) submitted ∧
    -- The answer settles the request.
    (∃ installed : Relay,
      (installed.channel.handleLines installed.files lines).1.watch.settlement? 1 = some (.answered (.matched reply))) ∧
    -- A diagnostic of the same file that comes later is published against the path that was told.
    ∃ location, (locate reply submitted).1 = .ok location ∧ location.line = 1 ∧ location.column = 2 ∧
      (locate reply submitted).2.channel.Publishes (locate reply submitted).2.files "[WARNING:w.cm:9:0]" location.path := by
  have hsubmits : Task.Moves Evolves (submitGoto ⟨"/a.cm"⟩ 4).run started (.done (.ok ⟨1, 2000⟩)) submitted :=
    Task.moves_of_alone? rfl
  obtain ⟨⟨asking, prior, left, installed, -, -, -, -, hsettles⟩, hagrees⟩ := definition_law started_reachable hsubmits
  refine ⟨started_reachable, hsubmits, ⟨installed, ?_⟩, ?_⟩
  · have hhandled : Channel.performAll (installed.channel, installed.files) (lines.map .line) =
        installed.channel.handleLines installed.files lines := rfl
    obtain ⟨heard, hshown, hsettled, -⟩ := hsettles (lines.map .line)
      { installed with
        channel := (installed.channel.handleLines installed.files lines).1
        files := (installed.channel.handleLines installed.files lines).2 } hhandled (by decide)
    have hlines : heard = lines :=
      List.append_cancel_left (hshown.symm.trans (Channel.handleLines_outputLines installed.channel installed.files lines))
    rw [hlines] at hsettled
    exact hsettled.trans (by decide +kernel)
  · obtain ⟨location, hlocated, hline, hcolumn, hpublishes⟩ :=
      hagrees reply submitted ⟨⟨"./w.cm"⟩, 1, 2⟩ (by decide +kernel)
    exact ⟨location, hlocated, hline, hcolumn, hpublishes [] ((locate reply submitted).2.channel,
      (locate reply submitted).2.files) "[WARNING:w.cm:9:0]" ⟨.warning, "warning", 8, 0⟩ (by simp) (by decide +kernel) (.inl rfl)⟩

end DefinitionRequest
end Relay
end CompilerRelay
