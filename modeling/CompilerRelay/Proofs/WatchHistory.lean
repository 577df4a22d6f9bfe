import CompilerRelay.Watch
import Mathlib.Data.List.Nodup
import Mathlib.Tactic

/-!
# The history of the watches

Every watch that was ever installed, related to the one slot that they pass through.

**Input.**  A list of requests to the slot, in the order in which they are made.

**Invariant.**  `WatchSlot.Tracks` relates the watches that were installed to the slot: they are numbered from
one, the one that waits is the newest, and the others are those that were settled, each once.

**Results.**
* `WatchSlot.settlement?_performAll_install`: what becomes of a watch is what the first request says that settles it.
* `WatchSlot.settlement_law`: the whole law, for every list of requests.
-/

namespace CompilerRelay

/-- What may be asked of the slot. -/
inductive WatchRequest where
  | install (success : String → Bool) (failure : Option (String → Bool))
  | offer (line : String)
  | clearIf (id : Nat)
  | abandon

namespace WatchRequest

/-- Whether a request installs a watch. -/
def isInstall : WatchRequest → Bool
  | .install _ _ => true
  | _ => false

end WatchRequest

namespace Watch

/-- `Settles watch request settlement`: the request settles the watch in this way, if the watch waits. -/
inductive Settles (watch : Watch) : WatchRequest → Settlement → Prop
  | superseded (success : String → Bool) (failure : Option (String → Bool)) :
      Settles watch (.install success failure) (.answered .superseded)
  | abandoned :
      Settles watch .abandon (.answered .abandoned)
  | dropped :
      Settles watch (.clearIf watch.id) .dropped
  | matched {line : String}
      (hsuccess : watch.success line = true) :
      Settles watch (.offer line) (.answered (.matched line))
  | failed {line : String} {failure : String → Bool}
      (hsuccess : watch.success line = false)
      (hfailure : watch.failure = some failure)
      (hline : failure line = true) :
      Settles watch (.offer line) (.answered (.failed line))

/-- The first of the requests that settles the watch settles it in this way. -/
def FirstSettles (watch : Watch) (requests : List WatchRequest) (settlement : Settlement) : Prop :=
  ∃ before request after,
    requests = before ++ request :: after ∧
    (∀ earlier, earlier ∈ before → ∀ other, ¬ watch.Settles earlier other) ∧
    watch.Settles request settlement

/-- How a request settles a watch that waits, if it does. -/
def settlementBy? (watch : Watch) : WatchRequest → Option Settlement
  | .install _ _ => some (.answered .superseded)
  | .offer line => (watch.outcomeOf? line).map .answered
  | .clearIf id => if watch.id == id then some .dropped else none
  | .abandon => some (.answered .abandoned)

/-- A line that the watch wants matches it, whatever the test for failure says. -/
theorem outcomeOf?_of_success
    {watch : Watch} {line : String}
    (hsuccess : watch.success line = true) :
    watch.outcomeOf? line = some (.matched line) := by
  simp [outcomeOf?, hsuccess]

theorem outcomeOf?_eq_some_iff
    (watch : Watch) (line : String) (outcome : WatchOutcome) :
    watch.outcomeOf? line = some outcome ↔
      watch.Settles (.offer line) (.answered outcome) := by
  constructor
  · intro h
    unfold outcomeOf? at h
    split at h
    · next hsuccess =>
        obtain rfl := Option.some.inj h
        exact .matched hsuccess
    · next hsuccess =>
        split at h
        · next hany =>
            obtain rfl := Option.some.inj h
            obtain ⟨failure, hfailure, hline⟩ := (Option.any_eq_true _ _).mp hany
            exact .failed (Bool.eq_false_iff.mpr hsuccess) hfailure hline
        · exact absurd h (by simp)
  · intro h
    cases h with
    | matched hsuccess => exact outcomeOf?_of_success hsuccess
    | failed hsuccess hfailure hline => simp [outcomeOf?, hsuccess, hfailure, hline]

theorem settlementBy?_eq_some_iff
    (watch : Watch) (request : WatchRequest) (settlement : Settlement) :
    watch.settlementBy? request = some settlement ↔ watch.Settles request settlement := by
  cases request with
  | install success failure =>
      constructor
      · intro h
        obtain rfl := Option.some.inj h
        exact .superseded success failure
      · intro h
        cases h
        rfl
  | offer line =>
      constructor
      · intro h
        obtain ⟨outcome, houtcome, rfl⟩ := Option.map_eq_some_iff.mp h
        exact (outcomeOf?_eq_some_iff watch line outcome).mp houtcome
      · intro h
        have hanswered : ∃ outcome, settlement = .answered outcome := by
          cases h <;> exact ⟨_, rfl⟩
        obtain ⟨outcome, rfl⟩ := hanswered
        exact Option.map_eq_some_iff.mpr
          ⟨outcome, (outcomeOf?_eq_some_iff watch line outcome).mpr h, rfl⟩
  | clearIf id =>
      constructor
      · intro h
        by_cases hid : watch.id = id
        · subst hid
          simp [settlementBy?] at h
          subst h
          exact .dropped
        · simp [settlementBy?, hid] at h
      · intro h
        cases h
        simp [settlementBy?]
  | abandon =>
      constructor
      · intro h
        obtain rfl := Option.some.inj h
        exact .abandoned
      · intro h
        cases h
        rfl

/-- The search for the first settlement finds what `FirstSettles` describes. -/
theorem findSome?_settlementBy?_eq_some_iff
    (watch : Watch) (requests : List WatchRequest) (settlement : Settlement) :
    requests.findSome? watch.settlementBy? = some settlement ↔
      watch.FirstSettles requests settlement := by
  have hnone (request : WatchRequest) :
      watch.settlementBy? request = none ↔ ∀ other, ¬ watch.Settles request other := by
    rw [Option.eq_none_iff_forall_ne_some]
    simp only [ne_eq, settlementBy?_eq_some_iff]
  rw [List.findSome?_eq_some_iff]
  constructor
  · rintro ⟨before, request, after, hrequests, hrequest, hbefore⟩
    exact ⟨before, request, after, hrequests,
      fun earlier hmem => (hnone earlier).mp (hbefore earlier hmem),
      (settlementBy?_eq_some_iff watch request settlement).mp hrequest⟩
  · rintro ⟨before, request, after, hrequests, hbefore, hrequest⟩
    exact ⟨before, request, after, hrequests,
      (settlementBy?_eq_some_iff watch request settlement).mpr hrequest,
      fun earlier hmem => (hnone earlier).mpr (hbefore earlier hmem)⟩

end Watch

namespace WatchSlot

/-- Carry a request out; the result is the number that was handed out, if one was. -/
def perform (slot : WatchSlot) : WatchRequest → Option Nat × WatchSlot
  | .install success failure =>
      let (id, after) := slot.install success failure
      (some id, after)
  | .offer line => (none, (slot.offer line).2)
  | .clearIf id => (none, slot.clearIf id)
  | .abandon => (none, slot.abandon)

/-- Carry requests out one after the other. -/
def performAll (slot : WatchSlot) (requests : List WatchRequest) : WatchSlot :=
  requests.foldl (fun slot request => (slot.perform request).2) slot

/-- The numbers that are handed out for requests, in order. -/
def numbersOf (slot : WatchSlot) : List WatchRequest → List Nat
  | [] => []
  | request :: rest =>
      (slot.perform request).1.toList ++ (slot.perform request).2.numbersOf rest

@[simp] theorem performAll_nil (slot : WatchSlot) :
    slot.performAll [] = slot := rfl

@[simp] theorem performAll_cons
    (slot : WatchSlot) (request : WatchRequest) (rest : List WatchRequest) :
    slot.performAll (request :: rest) = (slot.perform request).2.performAll rest := rfl

theorem performAll_append
    (slot : WatchSlot) (first second : List WatchRequest) :
    slot.performAll (first ++ second) = (slot.performAll first).performAll second :=
  List.foldl_append

@[simp] theorem lastId_settle (slot : WatchSlot) (settlement : Settlement) :
    (slot.settle settlement).lastId = slot.lastId := by
  unfold settle
  split <;> rfl

/-- Only installing hands out a number, and it is the next one. -/
theorem perform_fst (slot : WatchSlot) (request : WatchRequest) :
    (slot.perform request).1 = if request.isInstall then some (slot.lastId + 1) else none := by
  cases request <;> rfl

theorem lastId_perform (slot : WatchSlot) (request : WatchRequest) :
    (slot.perform request).2.lastId = slot.lastId + if request.isInstall then 1 else 0 := by
  cases request with
  | install success failure => rfl
  | offer line =>
      simp only [perform, offer, WatchRequest.isInstall]
      split <;> simp
  | clearIf id =>
      simp only [perform, clearIf, WatchRequest.isInstall]
      split <;> simp
  | abandon => simp [perform, abandon, WatchRequest.isInstall]

/-- Installing hands out the numbers after the last one, one by one. -/
theorem numbersOf_eq_range'
    (slot : WatchSlot) (requests : List WatchRequest) :
    slot.numbersOf requests =
      List.range' (slot.lastId + 1) (requests.countP WatchRequest.isInstall) := by
  induction requests generalizing slot with
  | nil => rfl
  | cons request rest ih =>
      rw [numbersOf, ih, perform_fst, lastId_perform]
      cases hinstall : request.isInstall with
      | true => simp [hinstall, List.range'_succ]
      | false => simp [hinstall]

theorem lastId_performAll
    (slot : WatchSlot) (requests : List WatchRequest) :
    (slot.performAll requests).lastId =
      slot.lastId + requests.countP WatchRequest.isInstall := by
  induction requests generalizing slot with
  | nil => rfl
  | cons request rest ih =>
      rw [performAll_cons, ih, lastId_perform]
      cases hinstall : request.isInstall with
      | true => simp [hinstall]; omega
      | false => simp [hinstall]

/-- The watches after one more request: a new one is numbered by its place. -/
def addWatch (watches : List Watch) : WatchRequest → List Watch
  | .install success failure => watches ++ [⟨watches.length + 1, success, failure⟩]
  | _ => watches

/-- The watches that requests install, in order. -/
def installed (requests : List WatchRequest) : List Watch :=
  requests.foldl addWatch []

@[simp] theorem installed_append_singleton
    (requests : List WatchRequest) (request : WatchRequest) :
    installed (requests ++ [request]) = addWatch (installed requests) request := by
  simp [installed]

/-! ## The invariant -/

/-- The slot is what is left of the watches that were installed. -/
structure Tracks (watches : List Watch) (slot : WatchSlot) : Prop where
  /-- The watches are numbered from one. -/
  numbered : watches.map Watch.id = List.range' 1 slot.lastId
  /-- The one that waits is the newest. -/
  newest : ∀ watch, slot.active = some watch → watches.getLast? = some watch
  /-- A watch waits until it is settled. -/
  waiting_iff : ∀ watch, watch ∈ watches →
    (slot.settlement? watch.id = none ↔ slot.active = some watch)
  /-- Only watches that were installed are settled. -/
  settled_le : ∀ id, id ∈ slot.settled.map Prod.fst → 1 ≤ id ∧ id ≤ slot.lastId
  /-- No watch is settled twice. -/
  settled_once : (slot.settled.map Prod.fst).Nodup

theorem settlement?_eq_none_iff (slot : WatchSlot) (id : Nat) :
    slot.settlement? id = none ↔ id ∉ slot.settled.map Prod.fst := by
  unfold settlement?
  induction slot.settled with
  | nil => simp
  | cons entry rest ih =>
      obtain ⟨other, settlement⟩ := entry
      by_cases hid : id = other
      · simp [hid]
      · have hbeq : (id == other) = false := by simpa using hid
        simp [List.lookup_cons, hbeq, ih, hid]

theorem settlement?_cons
    (slot : WatchSlot) (id other : Nat) (settlement : Settlement) :
    WatchSlot.settlement? { slot with settled := (other, settlement) :: slot.settled } id =
      if id = other then some settlement else slot.settlement? id := by
  by_cases hid : id = other
  · simp [settlement?, hid]
  · have hbeq : (id == other) = false := by simpa using hid
    simp [settlement?, List.lookup_cons, hbeq, hid]

namespace Tracks

variable {watches : List Watch} {slot : WatchSlot}

/-- Nothing was installed in a fresh slot. -/
theorem fresh : Tracks [] {} where
  numbered := rfl
  newest := by simp
  waiting_iff := by simp
  settled_le := by simp
  settled_once := by simp

theorem length_eq (h : Tracks watches slot) : watches.length = slot.lastId := by
  have hlength := congrArg List.length h.numbered
  simpa using hlength

theorem id_le
    (h : Tracks watches slot) {watch : Watch}
    (hmem : watch ∈ watches) :
    1 ≤ watch.id ∧ watch.id ≤ slot.lastId := by
  have hid : watch.id ∈ watches.map Watch.id := List.mem_map_of_mem hmem
  rw [h.numbered, List.mem_range'_1] at hid
  omega

theorem active_mem
    (h : Tracks watches slot) {watch : Watch}
    (hactive : slot.active = some watch) :
    watch ∈ watches :=
  List.mem_of_getLast? (h.newest watch hactive)

theorem active_unsettled
    (h : Tracks watches slot) {watch : Watch}
    (hactive : slot.active = some watch) :
    slot.settlement? watch.id = none :=
  (h.waiting_iff watch (h.active_mem hactive)).mpr hactive

/-- A number that was handed out and is not settled is that of the watch that waits. -/
theorem exists_active
    (h : Tracks watches slot) {id : Nat}
    (hpos : 1 ≤ id) (hle : id ≤ slot.lastId)
    (hunsettled : slot.settlement? id = none) :
    ∃ watch, slot.active = some watch ∧ watch.id = id := by
  have hnumber : id ∈ watches.map Watch.id := by
    rw [h.numbered, List.mem_range'_1]
    omega
  obtain ⟨watch, hmem, rfl⟩ := List.mem_map.mp hnumber
  exact ⟨watch, (h.waiting_iff watch hmem).mp hunsettled, rfl⟩

/-- A number that was not handed out is not settled. -/
theorem settlement?_of_late
    (h : Tracks watches slot) {id : Nat}
    (hlate : slot.lastId < id) :
    slot.settlement? id = none := by
  rw [settlement?_eq_none_iff]
  intro hmem
  have hle := (h.settled_le id hmem).2
  omega

/-- Settling the watch that waits keeps the account. -/
theorem settle
    (h : Tracks watches slot) (settlement : Settlement) :
    Tracks watches (slot.settle settlement) := by
  cases hactive : slot.active with
  | none => simpa [WatchSlot.settle, hactive] using h
  | some waiting =>
      have hmem := h.active_mem hactive
      have hunsettled : waiting.id ∉ slot.settled.map Prod.fst :=
        (settlement?_eq_none_iff slot waiting.id).mp (h.active_unsettled hactive)
      simp only [WatchSlot.settle, hactive]
      constructor
      · exact h.numbered
      · simp
      · intro watch hwatch
        have hsettled :
            WatchSlot.settlement?
              { slot with active := none, settled := (waiting.id, settlement) :: slot.settled }
              watch.id ≠ none := by
          intro hnone
          rw [settlement?_eq_none_iff] at hnone
          simp only [List.map_cons, List.mem_cons, not_or] at hnone
          obtain ⟨hother, hunsettledHere⟩ := hnone
          have hsame := (h.waiting_iff watch hwatch).mp
            ((settlement?_eq_none_iff slot watch.id).mpr hunsettledHere)
          rw [hactive] at hsame
          exact hother (congrArg Watch.id (Option.some.inj hsame)).symm
        simpa using hsettled
      · intro id hid
        simp only [List.map_cons, List.mem_cons] at hid
        rcases hid with rfl | hid
        · exact h.id_le hmem
        · exact h.settled_le id hid
      · simpa using ⟨by simpa using hunsettled, h.settled_once⟩

/-- A watch that takes the empty slot gets the next number. -/
theorem occupy
    (h : Tracks watches slot) (hempty : slot.active = none)
    (success : String → Bool) (failure : Option (String → Bool)) :
    Tracks (watches ++ [⟨slot.lastId + 1, success, failure⟩])
      { slot with
        active := some ⟨slot.lastId + 1, success, failure⟩
        lastId := slot.lastId + 1 } := by
  constructor
  · rw [List.map_append, h.numbered, List.range'_concat]
    simp [Nat.add_comm]
  · intro watch hwatch
    obtain rfl := Option.some.inj hwatch
    simp
  · intro watch hwatch
    rcases List.mem_append.mp hwatch with hold | hnew
    · have hle := h.id_le hold
      have hsettled : slot.settlement? watch.id ≠ none := by
        intro hnone
        have hwaits := (h.waiting_iff watch hold).mp hnone
        rw [hempty] at hwaits
        cases hwaits
      have hother : some (Watch.mk (slot.lastId + 1) success failure) ≠ some watch := by
        intro hsame
        have hid := congrArg Watch.id (Option.some.inj hsame)
        simp only at hid
        omega
      exact ⟨fun hnone => absurd hnone hsettled, fun hsame => absurd hsame hother⟩
    · obtain rfl := List.mem_singleton.mp hnew
      have hunsettled : slot.settlement? (slot.lastId + 1) = none := by
        rw [settlement?_eq_none_iff]
        intro hid
        have := h.settled_le _ hid
        omega
      exact ⟨fun _ => rfl, fun _ => hunsettled⟩
  · intro id hid
    have := h.settled_le id hid
    simp only
    omega
  · exact h.settled_once

/-- One request keeps the account, with the watch that it installs. -/
theorem perform
    (h : Tracks watches slot) (request : WatchRequest) :
    Tracks (addWatch watches request) (slot.perform request).2 := by
  cases request with
  | install success failure =>
      have hfreed := h.settle (.answered .superseded)
      have hempty : (slot.settle (.answered .superseded)).active = none := by
        cases hactive : slot.active <;> simp [WatchSlot.settle, hactive]
      have hoccupied := hfreed.occupy hempty success failure
      rw [lastId_settle] at hoccupied
      simpa [addWatch, WatchSlot.perform, WatchSlot.install, h.length_eq] using hoccupied
  | offer line =>
      simp only [addWatch, WatchSlot.perform, WatchSlot.offer]
      split
      · exact h
      · exact h.settle _
  | clearIf id =>
      simp only [addWatch, WatchSlot.perform, WatchSlot.clearIf]
      split
      · exact h.settle _
      · exact h
  | abandon => exact h.settle _

/-- What was settled stays as it is. -/
theorem settlement?_perform_of_settled
    (h : Tracks watches slot) (request : WatchRequest)
    {id : Nat} {settlement : Settlement}
    (hsettled : slot.settlement? id = some settlement) :
    (slot.perform request).2.settlement? id = some settlement := by
  have hsettle (newer : Settlement) : (slot.settle newer).settlement? id = some settlement := by
    cases hactive : slot.active with
    | none => simpa [WatchSlot.settle, hactive] using hsettled
    | some waiting =>
        have hother : id ≠ waiting.id := by
          intro hid
          rw [hid, h.active_unsettled hactive] at hsettled
          cases hsettled
        have hcons := settlement?_cons slot id waiting.id newer
        rw [if_neg hother, hsettled] at hcons
        simpa [WatchSlot.settle, hactive, settlement?] using hcons
  cases request with
  | install success failure => exact hsettle (.answered .superseded)
  | offer line =>
      simp only [WatchSlot.perform, WatchSlot.offer]
      split
      · exact hsettled
      · exact hsettle _
  | clearIf id =>
      simp only [WatchSlot.perform, WatchSlot.clearIf]
      split
      · exact hsettle _
      · exact hsettled
  | abandon => exact hsettle _

theorem settlement?_performAll_of_settled
    (h : Tracks watches slot) (requests : List WatchRequest)
    {id : Nat} {settlement : Settlement}
    (hsettled : slot.settlement? id = some settlement) :
    (slot.performAll requests).settlement? id = some settlement := by
  induction requests generalizing watches slot with
  | nil => exact hsettled
  | cons request rest ih =>
      exact ih (h.perform request) (h.settlement?_perform_of_settled request hsettled)

end Tracks

/-! ## What becomes of a watch -/

/-- A settlement of the watch that waits is recorded under its number. -/
theorem settlement?_settle_of_active
    {slot : WatchSlot} {watch : Watch}
    (hactive : slot.active = some watch) (settlement : Settlement) :
    (slot.settle settlement).settlement? watch.id = some settlement := by
  simp [settle, hactive, settlement?]

/-- A request that settles the watch that waits does so, and no other request touches it. -/
theorem perform_of_active
    {slot : WatchSlot} {watch : Watch}
    (hactive : slot.active = some watch) (request : WatchRequest) :
    match watch.settlementBy? request with
    | some settlement => (slot.perform request).2.settlement? watch.id = some settlement
    | none => (slot.perform request).2 = slot := by
  cases request with
  | install success failure =>
      exact settlement?_settle_of_active hactive (.answered .superseded)
  | offer line =>
      cases houtcome : watch.outcomeOf? line with
      | none => simp [Watch.settlementBy?, perform, offer, outcomeOf?, hactive, houtcome]
      | some outcome =>
          simp only [Watch.settlementBy?, perform, offer, outcomeOf?, hactive, houtcome,
            Option.map_some, Option.bind_some]
          exact settlement?_settle_of_active hactive (.answered outcome)
  | clearIf id =>
      by_cases hid : watch.id = id
      · simp only [Watch.settlementBy?, perform, clearIf, hactive, Option.any_some, hid,
          BEq.rfl, if_true]
        rw [← hid]
        exact settlement?_settle_of_active hactive .dropped
      · simp [Watch.settlementBy?, perform, clearIf, hactive, hid]
  | abandon => exact settlement?_settle_of_active hactive (.answered .abandoned)

/-- From any moment at which a watch waits, the first request that settles it decides. -/
theorem settlement?_performAll_of_active
    {watches : List Watch} {slot : WatchSlot} {watch : Watch}
    (h : Tracks watches slot) (hactive : slot.active = some watch)
    (requests : List WatchRequest) :
    (slot.performAll requests).settlement? watch.id =
      requests.findSome? watch.settlementBy? := by
  induction requests with
  | nil => exact h.active_unsettled hactive
  | cons request rest ih =>
      have hstep := perform_of_active hactive request
      cases hby : watch.settlementBy? request with
      | none =>
          rw [hby] at hstep
          rw [performAll_cons, hstep, ih, List.findSome?_cons, hby]
      | some settlement =>
          rw [hby] at hstep
          rw [performAll_cons, List.findSome?_cons, hby]
          exact (h.perform request).settlement?_performAll_of_settled rest hstep

/-! ## Runs from a fresh slot -/

/-- After any requests the slot is what is left of the watches that they installed. -/
theorem tracks_performAll (requests : List WatchRequest) :
    Tracks (installed requests) (WatchSlot.performAll {} requests) := by
  induction requests using List.reverseRecOn with
  | nil => exact .fresh
  | append_singleton requests request ih =>
      rw [installed_append_singleton, performAll_append]
      exact ih.perform request

/-- What becomes of a watch that is installed at any moment. -/
theorem settlement?_performAll_install
    (before after : List WatchRequest)
    (success : String → Bool) (failure : Option (String → Bool)) :
    let watch : Watch := ⟨(installed before).length + 1, success, failure⟩
    (WatchSlot.performAll {} (before ++ .install success failure :: after)).settlement? watch.id =
      after.findSome? watch.settlementBy? := by
  intro watch
  have hbefore := tracks_performAll before
  have hnumber : watch.id = (WatchSlot.performAll {} before).lastId + 1 := by
    simp [watch, hbefore.length_eq]
  have hactive :
      ((WatchSlot.performAll {} before).perform (.install success failure)).2.active = some watch := by
    simp [perform, install, watch, hbefore.length_eq]
  rw [performAll_append, performAll_cons]
  exact settlement?_performAll_of_active (hbefore.perform _) hactive after

/-- A line settles something exactly when the one who offers it is told so. -/
theorem Tracks.offer_fst_iff
    {watches : List Watch} {slot : WatchSlot}
    (h : Tracks watches slot) (line : String) :
    (slot.offer line).1 = true ↔
      ∃ watch, watch ∈ watches ∧ ∃ settlement,
        slot.settlement? watch.id = none ∧
        (slot.offer line).2.settlement? watch.id = some settlement := by
  cases houtcome : slot.outcomeOf? line with
  | none =>
      simp only [offer, houtcome]
      constructor
      · intro hfalse
        cases hfalse
      · rintro ⟨watch, -, settlement, hnone, hsome⟩
        rw [hnone] at hsome
        cases hsome
  | some outcome =>
      obtain ⟨watch, hactive, -⟩ := Option.bind_eq_some_iff.mp houtcome
      simp only [offer, houtcome, true_iff]
      exact ⟨watch, h.active_mem hactive, .answered outcome, h.active_unsettled hactive,
        settlement?_settle_of_active hactive _⟩

/-- **The settlement law.**  It holds after every list of requests, and so at every moment of a run. -/
theorem settlement_law (requests : List WatchRequest) :
    -- The numbers that are handed out are one, two, three, and so on.
    WatchSlot.numbersOf {} requests = List.range' 1 (requests.countP WatchRequest.isInstall) ∧
    (installed requests).map Watch.id =
      List.range' 1 (requests.countP WatchRequest.isInstall) ∧
    -- At most one watch is not settled: the one that waits, which is the newest.
    (∀ watch, watch ∈ installed requests →
      (WatchSlot.settlement? (WatchSlot.performAll {} requests) watch.id = none ↔
        (WatchSlot.performAll {} requests).active = some watch)) ∧
    (∀ watch, (WatchSlot.performAll {} requests).active = some watch →
      (installed requests).getLast? = some watch) ∧
    -- No watch is settled twice.
    ((WatchSlot.performAll {} requests).settled.map Prod.fst).Nodup ∧
    -- The first request after its own that settles a watch decides how it comes out.
    (∀ before after success failure,
      requests = before ++ .install success failure :: after →
      ∀ settlement,
        (WatchSlot.performAll {} requests).settlement? ((installed before).length + 1) =
            some settlement ↔
          Watch.FirstSettles ⟨(installed before).length + 1, success, failure⟩ after settlement) ∧
    -- Offering a line tells whether it settles a watch.
    (∀ line, ((WatchSlot.performAll {} requests).offer line).1 = true ↔
      ∃ watch, watch ∈ installed requests ∧ ∃ settlement,
        (WatchSlot.performAll {} requests).settlement? watch.id = none ∧
        ((WatchSlot.performAll {} requests).offer line).2.settlement? watch.id =
          some settlement) := by
  have htracks := tracks_performAll requests
  have hlast := lastId_performAll {} requests
  refine ⟨numbersOf_eq_range' {} requests, ?_, htracks.waiting_iff, htracks.newest,
    htracks.settled_once, ?_, htracks.offer_fst_iff⟩
  · rw [htracks.numbered, hlast, Nat.zero_add]
  · intro before after success failure hrequests settlement
    subst hrequests
    rw [settlement?_performAll_install before after success failure]
    exact Watch.findSome?_settlementBy?_eq_some_iff _ after settlement

end WatchSlot
end CompilerRelay
