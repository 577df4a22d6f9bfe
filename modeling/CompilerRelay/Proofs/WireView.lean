import CompilerRelay.Message
import CompilerRelay.Proofs.Locators
import Mathlib.Data.List.AList

/-!
# The view over the wire

A reader who knows of the events only by the messages keeps a list of diagnostics for each locator.  The relay keeps
one for each path.

**Input.**  Any events whose diagnostics are of absolute paths, in whatever spelling.

**Form.**  `WireView` is a map from locators, and `WireView.take` what a message does to it.

**Invariant.**  `Store.Agrees`: the entries of the store, by their locators, are those of the view.

**Results.**
* `Store.Agrees.apply`: an event keeps the invariant.
* `Store.wire_law`: a snapshot tells exactly what the reader knows.
-/

namespace CompilerRelay

/-- The diagnostics as a reader of the messages knows them. -/
abbrev WireView := AList fun _ : String => List Diagnostic

namespace WireView

/-- Take in a message. -/
def take (view : WireView) : Message → WireView
  | .diagnostics uri items => if items = [] then view.erase uri else view.insert uri items
  | .diagnosticsCleared => ∅
  | _ => view

/-- The view after messages, from nothing. -/
def ofMessages (messages : List Message) : WireView :=
  messages.foldl take ∅

/-- All diagnostics of a view. -/
def items (view : WireView) : List Diagnostic :=
  view.entries.flatMap Sigma.snd

end WireView

/-- Whether the diagnostics that an event tells of are of an absolute path. -/
def Event.isAbsolute : Event → Bool
  | .diagnostics path _ => path.isAbsolute
  | .output _ | .outputCleared | .diagnosticsCleared | .notification _ | .sessionStopped _ => true

namespace PathMap

/-- An entry by the locator of its key. -/
def located (entry : Path × List Diagnostic) : Σ _ : String, List Diagnostic :=
  ⟨Uri.ofPath entry.1, entry.2⟩

variable {entries : List (Path × List Diagnostic)} {path : Path}

theorem fst_located_eq_iff
    {entry : Path × List Diagnostic} (hentry : entry.1.isAbsolute = true) (hpath : path.isAbsolute = true) :
    Uri.ofPath path = (located entry).1 ↔ holds path entry = true := by
  rw [eq_comm]
  exact Uri.ofPath_eq_iff hentry hpath

theorem mem_insertInto
    {α : Type} {path : Path} {value : α} {entries : List (Path × α)} {entry : Path × α}
    (h : entry ∈ insertInto path value entries) :
    entry.1 = path ∨ ∃ other ∈ entries, other.1 = entry.1 := by
  induction entries with
  | nil => exact Or.inl (congrArg Prod.fst (List.mem_singleton.mp h))
  | cons first rest ih =>
      unfold insertInto at h
      split at h
      · rcases List.mem_cons.mp h with rfl | hrest
        · exact Or.inr ⟨first, List.mem_cons_self, rfl⟩
        · exact Or.inr ⟨entry, List.mem_cons_of_mem _ hrest, rfl⟩
      · rcases List.mem_cons.mp h with rfl | hrest
        · exact Or.inr ⟨entry, List.mem_cons_self, rfl⟩
        · rcases ih hrest with hnew | ⟨other, hother, hkey⟩
          · exact Or.inl hnew
          · exact Or.inr ⟨other, List.mem_cons_of_mem _ hother, hkey⟩

theorem located_insertInto
    (hentries : ∀ entry ∈ entries, entry.1.isAbsolute = true) (hpath : path.isAbsolute = true)
    (items : List Diagnostic) :
    ((insertInto path items entries).map located).Perm
      ((entries.map located).kinsert (Uri.ofPath path) items) := by
  rw [List.kinsert_def]
  induction entries with
  | nil => exact .refl _
  | cons entry rest ih =>
      have hentry := hentries entry List.mem_cons_self
      have hrest := ih fun other hother => hentries other (List.mem_cons_of_mem _ hother)
      rw [insertInto, List.map_cons]
      split
      · next hholds =>
          have hkey := (fst_located_eq_iff hentry hpath).mpr hholds
          rw [List.kerase_cons_eq hkey, List.map_cons]
          have hlocated : located (entry.1, items) = ⟨Uri.ofPath path, items⟩ := by rw [hkey]; rfl
          rw [hlocated]
      · next hother =>
          have hkey := mt (fst_located_eq_iff hentry hpath).mp hother
          rw [List.kerase_cons_ne hkey, List.map_cons]
          exact (hrest.cons _).trans (.swap _ _ _)

theorem located_erase
    (hentries : ∀ entry ∈ entries, entry.1.isAbsolute = true) (hpath : path.isAbsolute = true)
    (hkeys : (entries.map located).NodupKeys) :
    (entries.filter (!holds path ·)).map located = (entries.map located).kerase (Uri.ofPath path) := by
  induction entries with
  | nil => rfl
  | cons entry rest ih =>
      have hentry := hentries entry List.mem_cons_self
      obtain ⟨hnew, hrestKeys⟩ := List.nodupKeys_cons.mp hkeys
      have hrest := ih (fun other hother => hentries other (List.mem_cons_of_mem _ hother)) hrestKeys
      rw [List.map_cons]
      by_cases hholds : holds path entry = true
      · have hkey := (fst_located_eq_iff hentry hpath).mpr hholds
        -- No later entry has the key, so that nothing more is erased.
        rw [List.filter_cons_of_neg (by simp [hholds]), hrest, List.kerase_cons_eq hkey,
          List.kerase_of_notMem_keys (by rwa [hkey])]
      · have hkey := mt (fst_located_eq_iff hentry hpath).mp hholds
        rw [List.filter_cons_of_pos (by simp [hholds]), List.kerase_cons_ne hkey, List.map_cons, hrest]

end PathMap

namespace Store

open PathMap

/-- The entries of the store are of absolute paths, and by their locators they are those of the view. -/
structure Agrees (store : Store) (view : WireView) : Prop where
  isAbsolute : ∀ entry ∈ store.files.entries, entry.1.isAbsolute = true
  located : (store.files.entries.map located).Perm view.entries

namespace Agrees

variable {store : Store} {view : WireView}

theorem fresh : Agrees {} ∅ where
  isAbsolute := by simp
  located := .refl _

theorem erase (h : store.Agrees view) {path : Path} (hpath : path.isAbsolute = true) :
    Agrees ⟨store.files.erase path⟩ (view.erase (Uri.ofPath path)) where
  isAbsolute := fun entry hentry => h.isAbsolute entry (List.mem_of_mem_filter hentry)
  located := by
    have hkeys : (store.files.entries.map PathMap.located).NodupKeys :=
      (List.perm_nodupKeys h.located).mpr view.nodupKeys
    have herased := located_erase h.isAbsolute hpath hkeys
    exact (List.Perm.of_eq herased).trans (h.located.kerase hkeys)

theorem insert (h : store.Agrees view) {path : Path} (hpath : path.isAbsolute = true) (items : List Diagnostic) :
    Agrees ⟨store.files.insert path items⟩ (view.insert (Uri.ofPath path) items) where
  isAbsolute := fun entry hentry => by
    rcases mem_insertInto hentry with hnew | ⟨other, hother, hkey⟩
    · rwa [hnew]
    · rw [← hkey]
      exact h.isAbsolute other hother
  located := by
    have hkeys : (store.files.entries.map PathMap.located).NodupKeys :=
      (List.perm_nodupKeys h.located).mpr view.nodupKeys
    exact (located_insertInto h.isAbsolute hpath items).trans (h.located.kinsert hkeys)

/-- An event keeps the invariant, with its message taken in. -/
theorem apply (h : store.Agrees view) {event : Event} (hevent : event.isAbsolute = true) :
    (store.apply event).Agrees (view.take (Message.ofEvent event)) := by
  cases event with
  | diagnostics path items =>
      by_cases hitems : items = []
      · simpa [Store.apply, Store.set, Message.ofEvent, WireView.take, hitems] using h.erase hevent
      · simpa [Store.apply, Store.set, Message.ofEvent, WireView.take, hitems] using h.insert hevent items
  | diagnosticsCleared => exact fresh
  | output | outputCleared | notification | sessionStopped => exact h

theorem applyAll (h : store.Agrees view) {events : List Event} (hevents : ∀ event ∈ events, event.isAbsolute = true) :
    (events.foldl Store.apply store).Agrees ((events.map Message.ofEvent).foldl WireView.take view) := by
  induction events generalizing store view with
  | nil => exact h
  | cons event rest ih =>
      exact ih (h.apply (hevents event List.mem_cons_self)) fun other hother =>
        hevents other (List.mem_cons_of_mem _ hother)

/-- The files of a snapshot are the entries of the view. -/
theorem files (h : store.Agrees view) :
    (store.snapshot.files.map PathMap.located).Perm view.entries :=
  ((List.mergeSort_perm _ _).map _).trans h.located

theorem items (h : store.Agrees view) : store.snapshot.items.Perm view.items := by
  have hitems : store.snapshot.items = (store.snapshot.files.map PathMap.located).flatMap Sigma.snd := by
    rw [Snapshot.items, List.flatMap_map]
    rfl
  rw [hitems]
  exact h.files.flatMap_right _

end Agrees

theorem errorCount_eq (snapshot : Snapshot) :
    snapshot.errorCount = snapshot.items.countP (·.severity = .error) := by
  refine List.countP_congr fun diagnostic _ => ?_
  cases diagnostic.severity <;> decide

/-- What is no error is a warning. -/
theorem warningCount_eq (snapshot : Snapshot) :
    snapshot.warningCount = snapshot.items.countP (·.severity = .warning) := by
  have hall : snapshot.totalCount = snapshot.items.countP (·.severity = .error) +
      snapshot.items.countP (·.severity = .warning) := by
    rw [Snapshot.totalCount, List.length_eq_countP_add_countP (fun diagnostic => diagnostic.severity = .error)]
    congr 1
    refine List.countP_congr fun diagnostic _ => ?_
    cases diagnostic.severity <;> decide
  rw [Snapshot.warningCount, errorCount_eq, hall, Nat.add_sub_cancel_left]

/-- **The view over the wire is that of the store.** -/
theorem wire_law
    (id : Option Nat) {events : List Event} (hevents : ∀ event ∈ events, event.isAbsolute = true) :
    let view := WireView.ofMessages (events.map Message.ofEvent)
    ∃ status files,
      -- The counts are those of the errors and of the warnings in the view.
      Message.ofSnapshot id (Store.ofEvents events).snapshot =
        .snapshot id (view.items.countP (·.severity = .error)) (view.items.countP (·.severity = .warning))
          status files ∧
      -- Each locator of the view is listed once, with its list.
      (files.map FileDiagnostics.uri).Nodup ∧
      ∀ uri items, ⟨uri, items⟩ ∈ files ↔ view.lookup uri = some items := by
  intro view
  have hagrees : (Store.ofEvents events).Agrees view := Agrees.fresh.applyAll hevents
  refine ⟨(Store.ofEvents events).snapshot.status,
    (Store.ofEvents events).snapshot.files.map fun entry => ⟨Uri.ofPath entry.1, entry.2⟩, ?_, ?_, ?_⟩
  · rw [Message.ofSnapshot, errorCount_eq, warningCount_eq, hagrees.items.countP_eq, hagrees.items.countP_eq]
  · have hkeys := (List.perm_nodupKeys hagrees.files).mpr view.nodupKeys
    simpa [List.NodupKeys, List.keys, Function.comp_def, PathMap.located] using hkeys
  · intro uri items
    rw [← Option.mem_def, AList.mem_lookup_iff, ← hagrees.files.mem_iff]
    simp [PathMap.located]

/-- A file that is told of in three spellings, and one that is told of no more. -/
def respelled : List Event :=
  [.diagnostics ⟨"/cm/a b.cm"⟩ [⟨.error, "x", 1, 2⟩], .diagnostics ⟨"/cm/c.cm"⟩ [⟨.error, "y", 0, 0⟩],
    .diagnostics ⟨"/cm//./a b.cm"⟩ [⟨.error, "x", 1, 2⟩, ⟨.warning, "z", 3, 4⟩], .output "done",
    .diagnostics ⟨"/cm/c.cm/"⟩ []]

theorem wire_law_respelled :
    (∀ event ∈ respelled, event.isAbsolute = true) ∧
    ∃ status files,
      Message.ofSnapshot none (Store.ofEvents respelled).snapshot = .snapshot none 1 1 status files ∧
      (files.map FileDiagnostics.uri).Nodup ∧
      ⟨"file:///cm/a%20b.cm", [⟨.error, "x", 1, 2⟩, ⟨.warning, "z", 3, 4⟩]⟩ ∈ files := by
  have hevents : ∀ event ∈ respelled, event.isAbsolute = true := by decide
  obtain ⟨status, files, hmessage, honce, hlisted⟩ := wire_law none hevents
  exact ⟨hevents, status, files, hmessage, honce, (hlisted _ _).mpr (by decide +kernel)⟩

end Store
end CompilerRelay
