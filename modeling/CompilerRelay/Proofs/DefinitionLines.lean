import CompilerRelay.Proofs.AnchoredPatterns
import CompilerRelay.Proofs.ChannelRun

/-!
# Lines that begin with a marker

What can be told of a line from its marker alone, and what such lines do to the watch for a definition.

**Input.**  A line that begins with a bracket, a marker and a colon.

**Algorithm.**  The header goes on at least to the colon, so that the marker is its first field, whatever follows.

**Results.**
* `OutputLine.parse_of_info`: a line with the marker of the relay's own lines is plain.
* `OutputLine.isDiagnostic_of_definition`: a line with the marker of definitions is no diagnostic.
* `WatchSlot.performAll_offers`: the first line that a watch wants settles it, and none before it touches it.
* `Watch.outcomeOf?_definition`: what the watch for a definition wants are the lines with its marker.
-/

namespace CompilerRelay
namespace OutputLine

/-- Whether a line is a diagnostic. -/
def isDiagnostic : OutputLine → Bool
  | .diagnostic _ _ => true
  | .definition _ | .plain => false

/-- A line that tells where something is defined begins like this. -/
def definitionStart : List Char :=
  "[DEFINITION:".toList

/-- The marker is the first field of the header. -/
theorem exists_ofHeader_of_marker
    {line : String} {marker rest : List Char} (hline : line.toList = '[' :: (marker ++ ':' :: rest))
    (hcolon : ':' ∉ marker) (hbracket : ']' ∉ marker) (root : Path) :
    ∃ fields message, parse line root = ofHeader root (marker :: fields) message := by
  have htaken : (marker ++ ':' :: rest).takeWhile (· ≠ ']') = marker ++ ':' :: rest.takeWhile (· ≠ ']') := by
    have hkept : ∀ char ∈ marker, decide (char ≠ ']') = true := fun char hchar =>
      decide_eq_true fun hend => hbracket (hend ▸ hchar)
    rw [List.takeWhile_append_of_pos hkept]
    simp
  refine ⟨Text.splitOn ':' (rest.takeWhile (· ≠ ']')), ((marker ++ ':' :: rest).dropWhile (· ≠ ']')).drop 1, ?_⟩
  unfold parse
  rw [hline]
  simp only
  rw [htaken, Text.splitOn_append_cons, Text.splitOn_of_notMem hcolon]
  rfl

theorem ofHeader_info (root : Path) (fields : List (List Char)) (message : List Char) :
    ofHeader root ("INFO".toList :: fields) message = .plain := by
  unfold ofHeader
  split
  · next hfields =>
      obtain ⟨rfl, -⟩ := List.cons.inj hfields
      split
      · rfl
      · rw [if_neg (by decide), show Severity.ofMarker? (String.ofList "INFO".toList) = none from by decide +kernel]
      · rfl
  · rfl

/-- A line with the marker of the relay's own lines is plain. -/
theorem parse_of_info
    {line : String} (hline : "[INFO:".toList <+: line.toList) (root : Path) :
    parse line root = .plain := by
  obtain ⟨rest, hrest⟩ := hline
  have hspelled : line.toList = '[' :: ("INFO".toList ++ ':' :: rest) := hrest.symm
  obtain ⟨fields, message, hparse⟩ := exists_ofHeader_of_marker hspelled (by decide) (by decide) root
  rw [hparse, ofHeader_info]

/-- A line with the marker of definitions is no diagnostic. -/
theorem isDiagnostic_of_definition
    {line : String} (hline : definitionStart <+: line.toList) (root : Path) :
    (parse line root).isDiagnostic = false := by
  obtain ⟨rest, hrest⟩ := hline
  have hspelled : line.toList = '[' :: (definitionMarker.toList ++ ':' :: rest) := hrest.symm
  obtain ⟨fields, message, hparse⟩ := exists_ofHeader_of_marker hspelled (by decide) (by decide) root
  rw [hparse]
  unfold ofHeader
  split
  · next hfields =>
      obtain ⟨rfl, -⟩ := List.cons.inj hfields
      split
      · rfl
      · rw [if_pos (String.ofList_toList)]
        rfl
      · rfl
  · rfl

end OutputLine

/-! ## Watches -/

namespace WatchSlot

/-- The first line that the waiting watch wants settles it, and none before it touches it. -/
theorem performAll_offers
    {slot : WatchSlot} {watch : Watch} (hactive : slot.active = some watch) (lines : List String) :
    slot.performAll (lines.map .offer) =
      match lines.findSome? watch.outcomeOf? with
      | some outcome => slot.settle (.answered outcome)
      | none => slot := by
  have hempty {other : WatchSlot} (hother : other.active = none) (more : List String) :
      other.performAll (more.map .offer) = other := by
    induction more with
    | nil => rfl
    | cons line rest ih => rwa [List.map_cons, performAll_cons, perform, offer_of_empty line hother]
  induction lines with
  | nil => rfl
  | cons line rest ih =>
      rw [List.map_cons, performAll_cons, List.findSome?_cons]
      cases houtcome : watch.outcomeOf? line with
      | none =>
          have hkept : (slot.perform (.offer line)).2 = slot := by simp [perform, offer, outcomeOf?, hactive, houtcome]
          rw [hkept, ih]
      | some outcome =>
          have hsettled : (slot.perform (.offer line)).2 = slot.settle (.answered outcome) := by
            simp [perform, offer, outcomeOf?, hactive, houtcome]
          rw [hsettled, hempty (by simp [settle, hactive])]

end WatchSlot

/-- What the watch for a definition wants are the lines with its marker. -/
theorem Watch.outcomeOf?_definition
    {pattern : Pattern} (hpattern : Pattern.compile Relay.definitionPattern = .ok pattern) (id : Nat) (line : String) :
    Watch.outcomeOf? ⟨id, pattern.occursIn, none⟩ line =
      if OutputLine.definitionStart <+: line.toList then some (.matched line) else none := by
  obtain ⟨own, hown, hoccurs⟩ := Relay.exists_definitionPattern
  obtain rfl := Except.ok.inj (hown.symm.trans hpattern)
  have hline : own.occursIn line = decide (OutputLine.definitionStart <+: line.toList) := by
    rw [hoccurs, Bool.eq_iff_iff, List.isPrefixOf_iff_prefix, decide_eq_true_iff]
    rfl
  simp only [outcomeOf?, hline, decide_eq_true_eq]
  rfl

end CompilerRelay
