import Flagship.Core.ClientSafe

/-! # Which segments `clientSafeSegments` keeps

The loop of `packages/core/src/visibility.ts` stops at a fixed point of its own pass. What it has
by then is hereditarily safe, each key because of the keys added before it; and nothing that is
hereditarily safe is left out of a fixed point.
-/

namespace Flagship.Core

open Lib

/-- A defined segment without a server condition at any depth. -/
def DefinedSafe (segments : List Segment) (key : String) : Prop :=
  ∃ segment ∈ segments, segment.key = key ∧ ¬ segment.when.HasServerCondition

/-- What the loop is meant to compute: everything reachable is defined, safe and on no cycle. -/
def HereditarilySafe (segments : List Segment) (key : String) : Prop :=
  ∀ reached, Relation.ReflTransGen (SegmentRefers segments) key reached →
    DefinedSafe segments reached ∧ ¬ Relation.TransGen (SegmentRefers segments) reached reached

theorem hereditarilySafe_iff (segments : List Segment) (key : String) :
    HereditarilySafe segments key ↔ Hereditary (DefinedSafe segments) (SegmentRefers segments) key := by
  refine (hereditary_iff_reachable (segments.map Segment.key).finite_toSet ?_).symm
  rintro a b ⟨segment, hListed, rfl, _⟩
  exact List.mem_map_of_mem hListed

theorem SafeOrder.definedSafe {segments : List Segment} (hNodup : (segments.map Segment.key).Nodup)
    {safe : List String} (h : SafeOrder segments safe) :
    ∀ key ∈ safe, Hereditary (DefinedSafe segments) (SegmentRefers segments) key := by
  induction h with
  | nil =>
    intro key hMem
    cases hMem
  | add safe segment _ hListed hClient hEarlier ih =>
    intro key hMem
    rcases List.mem_append.mp hMem with hMem | hLast
    · exact ih key hMem
    · obtain rfl := List.mem_singleton.mp hLast
      refine Hereditary.intro _ ⟨segment, hListed, rfl, hClient⟩ ?_
      rintro reference ⟨found, hFound, hKey, hReference⟩
      obtain rfl := segment_eq_of_key hNodup hFound hListed hKey
      exact ih reference (hEarlier reference hReference)

/-! ## The fixed point -/

theorem foldl_visitSegment_flag {segments : List Segment} {state : List String × Bool} (h : state.2 = true) :
    (segments.foldl visitSegment state).2 = true := by
  induction segments generalizing state with
  | nil => exact h
  | cons segment rest ih =>
    apply ih
    rw [visitSegment]
    split
    · exact h
    · split
      · exact h
      · split
        · rfl
        · exact h

/-- A pass that does not set `changed` has found nothing to add. -/
theorem foldl_visitSegment_unchanged {segments : List Segment} {safe : List String}
    (h : (segments.foldl visitSegment (safe, false)).2 = false) :
    (segments.foldl visitSegment (safe, false)).1 = safe ∧ ∀ segment ∈ segments,
      segment.key ∈ safe ∨ segment.when.HasServerCondition ∨ ∃ key ∈ segment.when.references, key ∉ safe := by
  induction segments with
  | nil => exact ⟨rfl, fun segment hMem => absurd hMem List.not_mem_nil⟩
  | cons segment rest ih =>
    have hStays : visitSegment (safe, false) segment = (safe, false) ∧
        (segment.key ∈ safe ∨ segment.when.HasServerCondition ∨ ∃ key ∈ segment.when.references, key ∉ safe) := by
      rw [List.foldl_cons] at h
      by_cases hKnown : segment.key ∈ safe
      · exact ⟨by rw [visitSegment, if_pos hKnown], Or.inl hKnown⟩
      · by_cases hServer : containsServerOnly segment.when = true
        · refine ⟨by rw [visitSegment, if_neg hKnown, if_pos hServer], Or.inr (Or.inl ?_)⟩
          exact (containsServerOnly_iff _).mp hServer
        · by_cases hEarlier : (referencedSegments segment.when []).all (· ∈ safe) = true
          · rw [visitSegment, if_neg hKnown, if_neg hServer, if_pos hEarlier, foldl_visitSegment_flag rfl] at h
            cases h
          · refine ⟨by rw [visitSegment, if_neg hKnown, if_neg hServer, if_neg hEarlier], Or.inr (Or.inr ?_)⟩
            rw [all_referencedSegments] at hEarlier
            push Not at hEarlier
            exact hEarlier
    rw [List.foldl_cons, hStays.1] at h ⊢
    obtain ⟨hSame, hRest⟩ := ih h
    refine ⟨hSame, fun other hMem => ?_⟩
    rcases List.mem_cons.mp hMem with rfl | hMem
    · exact hStays.2
    · exact hRest other hMem

def pass (segments : List Segment) (safe : List String) : List String := (visitSegments segments safe).1

/-- The loop is some number of passes, and ends when one more would change nothing. -/
theorem clientSafeFrom_passes (segments : List Segment) (safe : List String) :
    ∃ passes, clientSafeFrom segments safe = (pass segments)^[passes] safe ∧
      (visitSegments segments (clientSafeFrom segments safe)).2 = false := by
  induction safe using clientSafeFrom.induct segments with
  | case1 safe hChanged ih =>
    obtain ⟨passes, hPasses, hSettled⟩ := ih
    rw [clientSafeFrom, if_pos hChanged]
    exact ⟨passes + 1, hPasses, hSettled⟩
  | case2 safe hSettled =>
    have hUnchanged : (visitSegments segments safe).2 = false := Bool.eq_false_iff.mpr hSettled
    rw [clientSafeFrom, if_neg hSettled]
    refine ⟨1, rfl, ?_⟩
    have hSame := (foldl_visitSegment_unchanged hUnchanged).1
    rw [← visitSegments] at hSame
    rw [hSame]
    exact hUnchanged

theorem mem_clientSafeSegments_of_hereditary {segments : List Segment} {key : String}
    (h : Hereditary (DefinedSafe segments) (SegmentRefers segments) key) : key ∈ clientSafeSegments segments := by
  obtain ⟨_, _, hSettled⟩ := clientSafeFrom_passes segments []
  have hFixed := (foldl_visitSegment_unchanged hSettled).2
  induction h with
  | intro key hOk _ ih =>
    obtain ⟨segment, hListed, rfl, hClient⟩ := hOk
    rcases hFixed segment hListed with hSafe | hServer | ⟨reference, hReference, hMissing⟩
    · exact hSafe
    · exact absurd hServer hClient
    · exact absurd (ih reference ⟨segment, hListed, rfl, hReference⟩) hMissing

theorem mem_clientSafeSegments_iff {segments : List Segment} (hNodup : (segments.map Segment.key).Nodup)
    (key : String) : key ∈ clientSafeSegments segments ↔ HereditarilySafe segments key := by
  rw [hereditarilySafe_iff]
  exact ⟨(clientSafeSegments_ordered segments).definedSafe hNodup key, mem_clientSafeSegments_of_hereditary⟩

theorem hereditarilySafe_perm {segments segments' : List Segment} (hPerm : segments.Perm segments') (key : String) :
    HereditarilySafe segments key ↔ HereditarilySafe segments' key := by
  have hDefined : DefinedSafe segments = DefinedSafe segments' := by
    funext other
    simp only [DefinedSafe, hPerm.mem_iff]
  have hRefers : SegmentRefers segments = SegmentRefers segments' := by
    funext a b
    simp only [SegmentRefers, hPerm.mem_iff]
  rw [HereditarilySafe, HereditarilySafe, hDefined, hRefers]

/-- The loop ends, with exactly the hereditarily safe segments, whatever the order of the list. -/
theorem clientSafeSegments_exact (segments : List Segment) (hNodup : (segments.map Segment.key).Nodup) :
    (∃ passes, clientSafeSegments segments = (pass segments)^[passes] [] ∧
      (visitSegments segments (clientSafeSegments segments)).2 = false) ∧
    (∀ key, key ∈ clientSafeSegments segments ↔ HereditarilySafe segments key) ∧
    ∀ segments', segments.Perm segments' →
      ∀ key, key ∈ clientSafeSegments segments ↔ key ∈ clientSafeSegments segments' := by
  refine ⟨clientSafeFrom_passes segments [], mem_clientSafeSegments_iff hNodup, ?_⟩
  intro segments' hPerm key
  have hNodup' : (segments'.map Segment.key).Nodup := (hPerm.map Segment.key).nodup_iff.mp hNodup
  rw [mem_clientSafeSegments_iff hNodup, mem_clientSafeSegments_iff hNodup', hereditarilySafe_perm hPerm]

section Example

def exampleSegments : List Segment :=
  [ { key := "staff", when := .segment { segmentKey := "beta", negate := false } },
    { key := "beta", when := .boolean .and [] },
    { key := "loop", when := .segment { segmentKey := "loop", negate := false } },
    { key := "buyers",
      when := .boolean .or [.segment { segmentKey := "staff", negate := false }, serverOnly "plan"] } ]

theorem clientSafeSegments_exact_example :
    HereditarilySafe exampleSegments "staff" ∧ ¬ HereditarilySafe exampleSegments "buyers" ∧
      "staff" ∈ clientSafeSegments exampleSegments.reverse := by
  have hExact := clientSafeSegments_exact exampleSegments (by decide)
  have hSafe : "staff" ∈ clientSafeSegments exampleSegments := by decide +kernel
  refine ⟨(hExact.2.1 "staff").mp hSafe, fun hBuyers => ?_, ?_⟩
  · have hMem := (hExact.2.1 "buyers").mpr hBuyers
    revert hMem
    decide +kernel
  · exact (hExact.2.2 exampleSegments.reverse (List.reverse_perm _).symm "staff").mp hSafe

end Example

end Flagship.Core
