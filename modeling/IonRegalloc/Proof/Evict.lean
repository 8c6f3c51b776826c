import IonRegalloc.Proof.Decision

/-! The eviction loop of `process_bundle`: bundles keep their ranges and cached properties, and
maps only lose entries. -/

namespace IonRegalloc

open AllocMap

theorem removeRanges_sublist : ∀ (ranges : List LiveRangeListEntry) (m : AllocMap),
    (removeRanges ranges m).Sublist m
  | [], _ => List.Sublist.refl _
  | entry :: rest, m =>
    (removeRanges_sublist rest _).trans (remove_sublist (LiveRangeKey.fromRange entry.range) m)

section Frame

variable {ctx : Ctx} {s : Env} {x : Nat}

theorem evictBundle_bundles (ctx : Ctx) (s : Env) (x b : Nat) :
    ∃ alloc, (evictBundle ctx s x).bundles b = { s.bundles b with allocation := alloc } := by
  unfold evictBundle
  split
  · exact ⟨_, rfl⟩
  · by_cases here : b = x
    · simp [here]
    · exact ⟨(s.bundles b).allocation, by simp [here]⟩

theorem evictBundle_allocations_sublist (p : Nat) :
    ((evictBundle ctx s x).pregs p).allocations.Sublist (s.pregs p).allocations := by
  unfold evictBundle
  split
  · exact List.Sublist.refl _
  · by_cases here : p = ‹Nat› <;> simp [here, removeRanges_sublist]

@[simp] theorem evictBundle_ranges : (evictBundle ctx s x).ranges = s.ranges := by
  unfold evictBundle; split <;> rfl

@[simp] theorem evictBundle_spillsets : (evictBundle ctx s x).spillsets = s.spillsets := by
  unfold evictBundle; split <;> rfl

end Frame

section Frames

variable {ctx : Ctx}

theorem evictAll_bundles (ctx : Ctx) : ∀ (s : Env) (bundles : List Nat) (b : Nat),
    ∃ alloc, (evictAll ctx s bundles).bundles b = { s.bundles b with allocation := alloc }
  | s, [], b => ⟨(s.bundles b).allocation, rfl⟩
  | s, x :: rest, b => by
    obtain ⟨alloc, evicted⟩ := evictAll_bundles ctx (evictBundle ctx s x) rest b
    obtain ⟨alloc', first⟩ := evictBundle_bundles ctx s x b
    exact ⟨alloc, by simp only [evictAll, List.foldl_cons] at evicted ⊢; rw [evicted, first]⟩

theorem evictAll_allocations_sublist : ∀ (s : Env) (bundles : List Nat) (p : Nat),
    ((evictAll ctx s bundles).pregs p).allocations.Sublist (s.pregs p).allocations
  | _, [], _ => List.Sublist.refl _
  | s, x :: rest, p =>
    (evictAll_allocations_sublist (evictBundle ctx s x) rest p).trans
      (evictBundle_allocations_sublist p)

theorem evictAll_ranges : ∀ (s : Env) (bundles : List Nat),
    (evictAll ctx s bundles).ranges = s.ranges
  | _, [] => rfl
  | s, x :: rest => (evictAll_ranges (evictBundle ctx s x) rest).trans evictBundle_ranges

theorem evictAll_spillsets : ∀ (s : Env) (bundles : List Nat),
    (evictAll ctx s bundles).spillsets = s.spillsets
  | _, [] => rfl
  | s, x :: rest => (evictAll_spillsets (evictBundle ctx s x) rest).trans evictBundle_spillsets

end Frames

end IonRegalloc
