import CompilerRelay.Proofs.StoreMirror
import CompilerRelay.Proofs.WalkOrder
import CompilerRelay.Proofs.WireView
import Mathlib.Data.List.Sort

/-!
# The history of the store

What the store holds after anything that may be asked of it, and how a snapshot shows it.

**Input.**  A list of requests to an empty store.

**Form.**  `StoreRequest.told? path request` is what a request says of a file: the diagnostics that it has from then on,
the empty list if it has none any more, and nothing if the request is not about the file.

**Invariant.**  `Store.Kept`: no list is empty, and no two entries are of one file, however they are spelled.

**Algorithm.**  A snapshot sorts the entries.  Of two different files one is shown before the other and never both, so
that the order in which the entries are kept does not matter.

**Results.**
* `Path.atMost_antisymm`: two paths each of which is sorted before the other name the same place.
* `Store.Kept.perform`: a request keeps the invariant.
* `Store.find?_performAll_eq_some_iff`: a file has what it was last told to have.
* `Store.snapshot_eq_of_perm`: a snapshot does not depend on the order of the entries.
* `Store.history_law`: all of this after every list of requests.
-/

namespace CompilerRelay

/-! ## The order of paths -/

namespace Path

/-- Keys are sorted as lists of names are. -/
theorem keysAtMost_iff (first second : List (List Nat)) : keysAtMost first second = true ↔ first ≤ second := by
  rw [← not_lt]
  induction first generalizing second with
  | nil => simp [keysAtMost]
  | cons key keys ih =>
      cases second with
      | nil => simp [keysAtMost]
      | cons other others =>
          rw [keysAtMost, List.cons_lt_cons_iff]
          split
          · next hsame => simp [hsame, ih]
          · next hother => simp [Ne.symm hother, numbersAtMost_iff]

theorem atMost_iff (first second : Path) : first.atMost second = true ↔ first.sortKey ≤ second.sortKey :=
  keysAtMost_iff _ _

theorem Component.sortKey_injective : Function.Injective Component.sortKey := by
  intro first second h
  cases first <;> cases second <;> simp [sortKey] at h ⊢
  exact List.map_injective_iff.mpr (fun _ _ => Char.toNat_inj.mp) h

theorem atMost_total (first second : Path) : first.atMost second = true ∨ second.atMost first = true := by
  rw [atMost_iff, atMost_iff]
  exact le_total _ _

theorem atMost_trans
    {first second third : Path} (hfirst : first.atMost second = true) (hsecond : second.atMost third = true) :
    first.atMost third = true := by
  rw [atMost_iff] at hfirst hsecond ⊢
  exact hfirst.trans hsecond

/-- Two paths each of which is sorted before the other name the same place. -/
theorem atMost_antisymm
    {first second : Path} (hfirst : first.atMost second = true) (hsecond : second.atMost first = true) :
    first.same second = true := by
  rw [atMost_iff] at hfirst hsecond
  rw [same_iff]
  exact List.map_injective_iff.mpr Component.sortKey_injective (hfirst.antisymm hsecond)

/-- A path is sorted before another that names another place. -/
def Before (first second : Path) : Prop :=
  first.atMost second = true ∧ first.same second = false

end Path

namespace PathMap

variable {α : Type}

/-- Forgetting the value at a path forgets it at every spelling of the path, and nowhere else. -/
theorem find?_erase (map : PathMap α) (path other : Path) :
    (map.erase path).find? other = if path.same other then none else map.find? other := by
  unfold find? erase
  rw [List.find?_filter]
  split
  · next hsame =>
      rw [List.find?_eq_none.mpr, Option.map_none]
      intro entry _ hentry
      obtain ⟨hkept, hfound⟩ := of_decide_eq_true hentry
      exact absurd (Path.same_trans hfound (Path.same_symm hsame)) (by simpa [holds] using hkept)
  · next hother =>
      congr 2
      funext entry
      by_cases hentry : holds other entry = true
      · have hkept : holds path entry = false := by
          rw [Bool.eq_false_iff]
          exact fun hpath => hother (Path.same_trans (Path.same_symm hpath) hentry)
        simp [hentry, hkept]
      · simp [hentry]

/-- No two keys are of one place. -/
def Distinct (entries : List (Path × α)) : Prop :=
  entries.Pairwise fun first second => first.1.same second.1 = false

theorem Distinct.insertInto
    {entries : List (Path × α)} (h : Distinct entries) (path : Path) (value : α) :
    Distinct (insertInto path value entries) := by
  induction entries with
  | nil => exact List.pairwise_singleton _ _
  | cons entry rest ih =>
      obtain ⟨hentry, hrest⟩ := List.pairwise_cons.mp h
      rw [PathMap.insertInto]
      split
      · exact List.pairwise_cons.mpr ⟨hentry, hrest⟩
      · next hother =>
          refine List.pairwise_cons.mpr ⟨fun new hnew => ?_, ih hrest⟩
          rcases mem_insertInto hnew with hpath | ⟨old, hold, hkey⟩
          · rw [hpath]
            exact Bool.eq_false_iff.mpr hother
          · rw [← hkey]
            exact hentry old hold

theorem Distinct.perm {entries others : List (Path × α)} (h : Distinct entries) (hperm : entries.Perm others) :
    Distinct others :=
  hperm.pairwise h fun hother => Bool.eq_false_iff.mpr fun hsame => Bool.eq_false_iff.mp hother (Path.same_symm hsame)

theorem snd_of_mem_insertInto
    {path : Path} {value : α} {entries : List (Path × α)} {entry : Path × α}
    (h : entry ∈ insertInto path value entries) :
    entry.2 = value ∨ entry ∈ entries := by
  induction entries with
  | nil => exact Or.inl (congrArg Prod.snd (List.mem_singleton.mp h))
  | cons first rest ih =>
      rw [insertInto] at h
      split at h
      · rcases List.mem_cons.mp h with rfl | hrest
        · exact Or.inl rfl
        · exact Or.inr (List.mem_cons_of_mem _ hrest)
      · rcases List.mem_cons.mp h with rfl | hrest
        · exact Or.inr List.mem_cons_self
        · exact (ih hrest).imp_right (List.mem_cons_of_mem _)

end PathMap

/-! ## Requests -/

/-- What may be asked of a store. -/
inductive StoreRequest where
  | set (path : Path) (items : List Diagnostic)
  | delete (path : Path)
  | clear
  | apply (event : Event)
  deriving DecidableEq, Repr

/-- What a request says of a file: the diagnostics that it has from then on, if the request is about the file. -/
def StoreRequest.told? (path : Path) : StoreRequest → Option (List Diagnostic)
  | .set other items | .apply (.diagnostics other items) => if other.same path then some items else none
  | .delete other => if other.same path then some [] else none
  | .clear | .apply .diagnosticsCleared => some []
  | .apply _ => none

namespace Store

/-- Do what is asked. -/
def perform (store : Store) : StoreRequest → Store
  | .set path items => store.set path items
  | .delete path => store.delete path
  | .clear => store.clear
  | .apply event => store.apply event

/-- The store after a list of requests, from nothing. -/
def performAll (requests : List StoreRequest) : Store :=
  requests.foldl perform {}

@[simp] theorem performAll_append_singleton (requests : List StoreRequest) (request : StoreRequest) :
    performAll (requests ++ [request]) = (performAll requests).perform request := by
  simp [performAll]

/-- No list is empty, and no two entries are of one file. -/
structure Kept (store : Store) : Prop where
  nonempty : ∀ entry ∈ store.files.entries, entry.2 ≠ []
  distinct : PathMap.Distinct store.files.entries

namespace Kept

variable {store : Store}

theorem fresh : Kept {} where
  nonempty := by simp
  distinct := List.Pairwise.nil

theorem delete (h : store.Kept) (path : Path) : (store.delete path).Kept where
  nonempty := fun entry hentry => h.nonempty entry (List.mem_of_mem_filter hentry)
  distinct := h.distinct.filter _

theorem set (h : store.Kept) (path : Path) (items : List Diagnostic) : (store.set path items).Kept := by
  by_cases hitems : items = []
  · rw [Store.set, if_pos hitems]
    exact h.delete path
  · rw [Store.set, if_neg hitems]
    refine ⟨fun entry hentry => ?_, h.distinct.insertInto path items⟩
    rcases PathMap.snd_of_mem_insertInto hentry with hnew | hold
    · rwa [hnew]
    · exact h.nonempty entry hold

/-- A request keeps the invariant. -/
theorem perform (h : store.Kept) (request : StoreRequest) : (store.perform request).Kept := by
  cases request with
  | set path items => exact h.set path items
  | delete path => exact h.delete path
  | clear => exact fresh
  | apply event =>
      cases event with
      | diagnostics path items => exact h.set path items
      | diagnosticsCleared => exact fresh
      | output | outputCleared | notification | sessionStopped => exact h

theorem performAll (requests : List StoreRequest) : (performAll requests).Kept := by
  induction requests using List.reverseRecOn with
  | nil => exact fresh
  | append_singleton requests request ih =>
      rw [performAll_append_singleton]
      exact ih.perform request

end Kept

/-- What a file has after a request: what the request says of it, or else what it had. -/
theorem find?_perform (store : Store) (request : StoreRequest) (path : Path) :
    (store.perform request).find? path =
      match request.told? path with
      | some items => if items = [] then none else some items
      | none => store.find? path := by
  have hset : ∀ other items, (store.set other items).find? path =
      match if other.same path = true then some items else none with
      | some items => if items = [] then none else some items
      | none => store.find? path := by
    intro other items
    by_cases hitems : items = []
    · rw [Store.set, if_pos hitems]
      by_cases hsame : other.same path = true <;> simp [Store.find?, PathMap.find?_erase, hsame, hitems]
    · rw [Store.set, if_neg hitems]
      by_cases hsame : other.same path = true <;> simp [Store.find?, PathMap.find?_insert, hsame, hitems]
  cases request with
  | set other items => exact hset other items
  | delete other => exact hset other []
  | clear => rfl
  | apply event =>
      cases event with
      | diagnostics other items => exact hset other items
      | diagnosticsCleared => rfl
      | output | outputCleared | notification | sessionStopped => rfl

/-- A file has what it was last told to have. -/
theorem find?_performAll_eq_some_iff (requests : List StoreRequest) (path : Path) (items : List Diagnostic) :
    (performAll requests).find? path = some items ↔
      items ≠ [] ∧
      ∃ earlier request later, requests = earlier ++ request :: later ∧
        request.told? path = some items ∧
        ∀ other ∈ later, other.told? path = none := by
  induction requests using List.reverseRecOn with
  | nil => simp [performAll, Store.find?, PathMap.find?]
  | append_singleton requests last ih =>
      rw [performAll_append_singleton, find?_perform]
      constructor
      · intro hfound
        cases htold : last.told? path with
        | some told =>
            rw [htold] at hfound
            obtain ⟨hnonempty, hsame⟩ := Option.ite_none_left_eq_some.mp hfound
            obtain rfl := Option.some.inj hsame
            exact ⟨hnonempty, requests, last, [], rfl, htold, by simp⟩
        | none =>
            rw [htold] at hfound
            obtain ⟨hnonempty, earlier, request, later, rfl, hrequest, hlater⟩ := ih.mp hfound
            refine ⟨hnonempty, earlier, request, later ++ [last], by simp, hrequest, fun other hother => ?_⟩
            rcases List.mem_append.mp hother with hother | hother
            · exact hlater other hother
            · rwa [List.mem_singleton.mp hother]
      · rintro ⟨hnonempty, earlier, request, later, hsplit, hrequest, hlater⟩
        induction later using List.reverseRecOn with
        | nil =>
            obtain ⟨-, hlast⟩ := List.append_inj' hsplit rfl
            rw [List.singleton_inj.mp hlast, hrequest]
            exact if_neg hnonempty
        | append_singleton later final _ =>
            rw [← List.cons_append, ← List.append_assoc] at hsplit
            obtain ⟨hrequests, hlast⟩ := List.append_inj' hsplit rfl
            rw [List.singleton_inj.mp hlast, hlater final (by simp)]
            exact ih.mpr ⟨hnonempty, earlier, request, later, hrequests, hrequest,
              fun other hother => hlater other (List.mem_append_left _ hother)⟩

/-! ## Snapshots -/

theorem hasError_iff (entry : Path × List Diagnostic) :
    hasError entry = true ↔ ∃ diagnostic ∈ entry.2, diagnostic.severity = .error := by
  simp only [hasError, List.any_eq_true]
  refine exists_congr fun diagnostic => and_congr_right fun _ => ?_
  cases diagnostic.severity <;> decide

theorem shownFirst_total (first second : Path × List Diagnostic) :
    (shownFirst first second || shownFirst second first) = true := by
  rw [Bool.or_eq_true]
  by_cases hsame : hasError first = hasError second
  · rw [shownFirst, shownFirst, if_pos hsame, if_pos hsame.symm]
    exact Path.atMost_total _ _
  · rw [shownFirst, shownFirst, if_neg hsame, if_neg (Ne.symm hsame)]
    cases hfirst : hasError first
    · exact Or.inr (by simpa [hfirst] using hsame)
    · exact Or.inl rfl

theorem shownFirst_iff (first second : Path × List Diagnostic) :
    shownFirst first second = true ↔
      hasError first = true ∧ hasError second = false ∨
        hasError first = hasError second ∧ first.1.atMost second.1 = true := by
  rw [shownFirst]
  cases hasError first <;> cases hasError second <;> simp

theorem shownFirst_trans
    {first second third : Path × List Diagnostic} (hfirst : shownFirst first second = true)
    (hsecond : shownFirst second third = true) :
    shownFirst first third = true := by
  rw [shownFirst_iff] at *
  rcases hfirst with ⟨herror, hnone⟩ | ⟨hsame, hle⟩ <;> rcases hsecond with ⟨herror', hnone'⟩ | ⟨hsame', hle'⟩
  · exact Or.inl ⟨herror, hnone'⟩
  · exact Or.inl ⟨herror, hsame' ▸ hnone⟩
  · exact Or.inl ⟨hsame.trans herror', hnone'⟩
  · exact Or.inr ⟨hsame.trans hsame', Path.atMost_trans hle hle'⟩

/-- Each of two entries is shown before the other only if they are of one file. -/
theorem shownFirst_antisymm
    {first second : Path × List Diagnostic} (hfirst : shownFirst first second = true)
    (hsecond : shownFirst second first = true) :
    first.1.same second.1 = true := by
  rw [shownFirst_iff] at hfirst hsecond
  rcases hfirst with ⟨herror, hnone⟩ | ⟨hsame, hle⟩ <;> rcases hsecond with ⟨herror', hnone'⟩ | ⟨hsame', hle'⟩
  · exact absurd (hnone.symm.trans herror') (by decide)
  · exact absurd (hnone.symm.trans (hsame'.trans herror)) (by decide)
  · exact absurd (hnone'.symm.trans (hsame.trans herror')) (by decide)
  · exact Path.atMost_antisymm hle hle'

/-- The order in which files are shown: one entry comes first, and the two are not of one file. -/
def ShownBefore (first second : Path × List Diagnostic) : Prop :=
  shownFirst first second = true ∧ first.1.same second.1 = false

theorem ShownBefore.before
    {first second : Path × List Diagnostic} (h : ShownBefore first second)
    (hsame : hasError first = hasError second) :
    first.1.Before second.1 := by
  rcases (shownFirst_iff first second).mp h.1 with ⟨herror, hnone⟩ | ⟨-, hle⟩
  · exact absurd (herror.symm.trans (hsame.trans hnone)) (by decide)
  · exact ⟨hle, h.2⟩

/-- Entries in the order in which they are shown are those with errors and then those without. -/
theorem exists_groups_of_pairwise
    {entries : List (Path × List Diagnostic)} (h : entries.Pairwise ShownBefore) :
    ∃ failing others, entries = failing ++ others ∧
      (∀ entry ∈ failing, hasError entry = true) ∧ (∀ entry ∈ others, hasError entry = false) := by
  induction entries with
  | nil => exact ⟨[], [], rfl, by simp, by simp⟩
  | cons entry rest ih =>
      obtain ⟨hentry, hrest⟩ := List.pairwise_cons.mp h
      obtain ⟨failing, others, rfl, hfailing, hothers⟩ := ih hrest
      cases herror : hasError entry with
      | true => exact ⟨entry :: failing, others, rfl, by simpa [herror] using hfailing, hothers⟩
      | false =>
          -- Nothing with an error comes after an entry without one.
          have hnone : failing = [] := by
            refine List.eq_nil_iff_forall_not_mem.mpr fun other hother => ?_
            have hshown := (hentry other (List.mem_append_left _ hother)).1
            simp [shownFirst, herror, hfailing other hother] at hshown
          subst hnone
          exact ⟨[], entry :: others, rfl, by simp, by simpa [herror] using hothers⟩

/-- What a snapshot shows is in order. -/
theorem Kept.pairwise_shownBefore {store : Store} (h : store.Kept) : store.snapshot.files.Pairwise ShownBefore := by
  have hsorted : store.snapshot.files.Pairwise (shownFirst · ·) := by
    rw [snapshot]
    apply List.pairwise_mergeSort
    · exact fun _ _ _ => shownFirst_trans
    · exact shownFirst_total
  exact hsorted.and (h.distinct.perm (List.mergeSort_perm _ _).symm)

/-- A snapshot does not depend on the order in which the entries are kept. -/
theorem snapshot_eq_of_perm
    {store other : Store} (h : store.Kept) (hperm : other.files.entries.Perm store.files.entries) :
    other.snapshot = store.snapshot := by
  have hother : other.Kept :=
    ⟨fun entry hentry => h.nonempty entry (hperm.mem_iff.mp hentry), h.distinct.perm hperm.symm⟩
  have hfiles : other.snapshot.files.Perm store.snapshot.files :=
    (List.mergeSort_perm _ _).trans (hperm.trans (List.mergeSort_perm _ _).symm)
  have hsame : other.snapshot.files = store.snapshot.files :=
    hfiles.eq_of_pairwise
      (fun first second _ _ hle hge => absurd (shownFirst_antisymm hle.1 hge.1) (by simp [hle.2]))
      hother.pairwise_shownBefore h.pairwise_shownBefore
  exact congrArg Snapshot.mk hsame

/-- The snapshot shows the files with errors and then those without, each in the order of their paths. -/
theorem Kept.exists_groups {store : Store} (h : store.Kept) :
    ∃ failing others, store.snapshot.files = failing ++ others ∧
      (∀ entry ∈ failing, ∃ diagnostic ∈ entry.2, diagnostic.severity = .error) ∧
      (∀ entry ∈ others, ∀ diagnostic ∈ entry.2, diagnostic.severity ≠ .error) ∧
      failing.Pairwise (fun first second => first.1.Before second.1) ∧
      others.Pairwise (fun first second => first.1.Before second.1) := by
  have hpairwise := h.pairwise_shownBefore
  obtain ⟨failing, others, hfiles, hfailing, hothers⟩ := exists_groups_of_pairwise hpairwise
  rw [hfiles, List.pairwise_append] at hpairwise
  obtain ⟨hfirst, hsecond, -⟩ := hpairwise
  refine ⟨failing, others, hfiles, fun entry hentry => (hasError_iff entry).mp (hfailing entry hentry), ?_,
    hfirst.imp_of_mem fun hleft hright hbefore => hbefore.before ((hfailing _ hleft).trans (hfailing _ hright).symm),
    hsecond.imp_of_mem fun hleft hright hbefore => hbefore.before ((hothers _ hleft).trans (hothers _ hright).symm)⟩
  intro entry hentry diagnostic hmem herror
  exact absurd ((hasError_iff entry).mpr ⟨diagnostic, hmem, herror⟩) (by simp [hothers entry hentry])

theorem Kept.totalCount_eq_zero_iff {store : Store} (h : store.Kept) :
    store.snapshot.totalCount = 0 ↔ store.snapshot.files = [] := by
  rw [Snapshot.totalCount, List.length_eq_zero_iff, Snapshot.items, List.flatMap_eq_nil_iff]
  constructor
  · intro hempty
    refine List.eq_nil_iff_forall_not_mem.mpr fun entry hentry => ?_
    exact h.nonempty entry ((List.mergeSort_perm _ _).mem_iff.mp hentry) (hempty entry hentry)
  · intro hfiles
    simp [hfiles]

theorem errorCount_le_totalCount (snapshot : Snapshot) : snapshot.errorCount ≤ snapshot.totalCount :=
  List.countP_le_length

theorem status_eq_empty_iff (snapshot : Snapshot) : snapshot.status = "" ↔ snapshot.files = [] := by
  rw [Snapshot.status]
  split
  · next hfiles => simp [hfiles]
  · next hfiles =>
      refine iff_of_false (fun hempty => ?_) hfiles
      have hlength := congrArg String.length hempty
      simp [String.length_append] at hlength

/-- **The store has for each file what it was last told, and its snapshot is one list.** -/
theorem history_law (requests : List StoreRequest) :
    let store := performAll requests
    let snapshot := store.snapshot
    -- No list is empty, and no two entries are of one file.
    (∀ entry ∈ store.files.entries, entry.2 ≠ []) ∧
    store.files.entries.Pairwise (fun first second => first.1.same second.1 = false) ∧
    -- A file has the list of the last request that is about it, if that list is not empty, and none otherwise.
    (∀ path items, store.find? path = some items ↔
      items ≠ [] ∧
      ∃ earlier request later, requests = earlier ++ request :: later ∧
        request.told? path = some items ∧
        ∀ other ∈ later, other.told? path = none) ∧
    -- Each entry is shown once: the files with errors and then those without, in the order of their paths.
    snapshot.files.Perm store.files.entries ∧
    (∃ failing others, snapshot.files = failing ++ others ∧
      (∀ entry ∈ failing, ∃ diagnostic ∈ entry.2, diagnostic.severity = .error) ∧
      (∀ entry ∈ others, ∀ diagnostic ∈ entry.2, diagnostic.severity ≠ .error) ∧
      failing.Pairwise (fun first second => first.1.Before second.1) ∧
      others.Pairwise (fun first second => first.1.Before second.1)) ∧
    -- In whatever order the entries are kept, the list is the same.
    (∀ entries, entries.Perm store.files.entries → (Store.mk ⟨entries⟩).snapshot = snapshot) ∧
    -- The counts add up, and the text is empty exactly if there is nothing to count.
    snapshot.errorCount ≤ snapshot.totalCount ∧
    snapshot.errorCount + snapshot.warningCount = snapshot.totalCount ∧
    (snapshot.status = "" ↔ snapshot.totalCount = 0) := by
  intro store snapshot
  have hkept : store.Kept := Kept.performAll requests
  have hcounts : snapshot.errorCount ≤ snapshot.totalCount := errorCount_le_totalCount snapshot
  exact ⟨hkept.nonempty, hkept.distinct, find?_performAll_eq_some_iff requests, List.mergeSort_perm _ _,
    hkept.exists_groups, fun entries hentries => snapshot_eq_of_perm hkept hentries, hcounts,
    Nat.add_sub_of_le hcounts, (status_eq_empty_iff snapshot).trans hkept.totalCount_eq_zero_iff.symm⟩

end Store
end CompilerRelay
