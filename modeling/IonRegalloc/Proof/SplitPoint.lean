import IonRegalloc.Proof.MergeScan
import IonRegalloc.Ion.Split

/-! Where `split_and_requeue_bundle` cuts a well-formed, non-minimal bundle: at a Before point
strictly inside it, after the ranges ending by that point. -/

namespace IonRegalloc

/-- A live range's uses are sorted by position and lie inside its range. -/
@[mk_iff] structure UsesInside (r : LiveRange) : Prop where
  sorted : r.uses.Pairwise fun a b => a.pos ≤ b.pos
  inside : ∀ u ∈ r.uses, r.range.from ≤ u.pos ∧ u.pos < r.range.to

instance (r : LiveRange) : Decidable (UsesInside r) := decidable_of_iff _ (usesInside_iff r).symm

/-- The representation invariant of a bundle's range list: sorted, nonempty and pairwise
disjoint ranges, each equal to its arena range, whose uses are sorted and inside them. -/
@[mk_iff] structure ListReady (s : Env) (entries : List LiveRangeListEntry) : Prop where
  sorted : RangesSorted entries
  arena : ∀ e ∈ entries, (s.ranges e.index).range = e.range
  usesInside : ∀ e ∈ entries, UsesInside (s.ranges e.index)

instance (s : Env) (entries : List LiveRangeListEntry) : Decidable (ListReady s entries) :=
  decidable_of_iff _ (listReady_iff s entries).symm

theorem ListReady.sublist {s : Env} {l l' : List LiveRangeListEntry} (ready : ListReady s l)
    (sub : l'.Sublist l) : ListReady s l' where
  sorted := KeysSorted.sublist ready.sorted sub
  arena e member := ready.arena e (sub.subset member)
  usesInside e member := ready.usesInside e (sub.subset member)

section Bounds

variable {l : List LiveRangeListEntry} {first e : LiveRangeListEntry}

theorem RangesSorted.head_le (sorted : RangesSorted (first :: l)) (member : e ∈ first :: l) :
    first.range.from ≤ e.range.from := by
  rcases List.mem_cons.mp member with rfl | inRest
  · exact le_rfl
  · have := ((KeysSorted.cons_iff first).mp sorted).2.1 e inRest
    have := KeysSorted.nonempty sorted first (List.mem_cons_self _ _)
    simp at *; omega

theorem RangesSorted.le_getLast (sorted : RangesSorted l) (nonempty : l ≠ [])
    (member : e ∈ l) : e.range.to ≤ (l.getLast nonempty).range.to := by
  have whole := List.dropLast_append_getLast nonempty
  have sorted : RangesSorted (l.dropLast ++ [l.getLast nonempty]) := by rw [whole]; exact sorted
  rcases List.mem_append.mp (whole ▸ member) with inInit | inLast
  · have := KeysSorted.before sorted inInit
    have := KeysSorted.nonempty sorted _ (List.mem_append_right _ (List.mem_singleton_self _))
    simp at *; omega
  · rw [List.mem_singleton.mp inLast]

end Bounds

theorem ListReady.use_inside {s : Env} {first : LiveRangeListEntry}
    {rest : List LiveRangeListEntry} (ready : ListReady s (first :: rest)) {u : Use}
    (used : u ∈ (first :: rest).flatMap fun entry => (s.ranges entry.index).uses) :
    first.range.from ≤ u.pos ∧ u.pos < ((first :: rest).getLast (List.cons_ne_nil _ _)).range.to := by
  obtain ⟨e, member, used⟩ := List.mem_flatMap.mp used
  have inside := (ready.usesInside e member).inside u used
  rw [ready.arena e member] at inside
  have := RangesSorted.head_le ready.sorted member
  have := RangesSorted.le_getLast ready.sorted (List.cons_ne_nil _ _) member
  omega

theorem firstUseInBundle_inside {s : Env} {first : LiveRangeListEntry}
    {rest : List LiveRangeListEntry} (ready : ListReady s (first :: rest)) :
    ∀ pos ∈ firstUseInBundle s (first :: rest),
      first.range.from ≤ pos ∧ pos < ((first :: rest).getLast (List.cons_ne_nil _ _)).range.to := by
  intro pos found
  obtain ⟨u, head, rfl⟩ := Option.mem_map.mp found
  exact ready.use_inside (List.mem_of_mem_head? head)

/-- The normalized split point of a non-minimal bundle is a Before point strictly inside it,
given the requested point and the first use lie inside the bundle. -/
theorem normalizeSplitAt_inside {s : Env} {ranges : List LiveRangeListEntry}
    {bundleStart bundleEnd splitAt : Nat} (notMinimal : spansOneInst bundleStart bundleEnd = false)
    (firstUse : ∀ pos ∈ firstUseInBundle s ranges, bundleStart ≤ pos ∧ pos < bundleEnd)
    (start_le : bundleStart ≤ splitAt) (lt_end : splitAt < bundleEnd) :
    normalizeSplitAt s ranges bundleStart bundleEnd splitAt % 2 = 0 ∧
      bundleStart < normalizeSplitAt s ranges bundleStart bundleEnd splitAt ∧
      normalizeSplitAt s ranges bundleStart bundleEnd splitAt < bundleEnd := by
  have twoInsts : bundleStart / 2 < (bundleEnd - 1) / 2 := by
    simp only [spansOneInst, ProgPoint.prev_of_pos (by omega : 0 < bundleEnd), ProgPoint.inst_eq,
      decide_eq_false_iff_not] at notMinimal
    omega
  unfold normalizeSplitAt
  split
  · split
    · rename_i pos found
      have := firstUse pos found
      simp only [ProgPoint.inst_eq, ProgPoint.before_eq]
      split <;> omega
    · simp only [ProgPoint.inst_eq, ProgPoint.before_eq]; omega
  · simp only [ProgPoint.pos_eq_after_iff, ProgPoint.next_eq]
    split <;> split <;> simp only [ProgPoint.prev_of_pos (by omega : 0 < splitAt + 1),
      ProgPoint.prev_of_pos (by omega : 0 < splitAt + 1 - 1)] at * <;> omega

section Indices

variable {p : Nat}

theorem splitIndices_append : ∀ (kept l : List LiveRangeListEntry) (i : Nat) (found : Nat × Nat),
    (∀ e ∈ kept, e.range.from < p ∧ e.range.to ≤ p) →
    splitIndices p (kept ++ l) i found =
      splitIndices p l (i + kept.length)
        (if kept = [] then found else (i + kept.length - 1, i + kept.length - 1))
  | [], _, _, _, _ => by simp
  | e :: kept, l, i, found, before => by
    obtain ⟨starts, ends⟩ := before e (List.mem_cons_self _ _)
    rw [List.cons_append, splitIndices]
    simp only [starts, if_true, show ¬ p < e.range.to by omega, if_false]
    rw [splitIndices_append kept l (i + 1) (i, i) fun x h => before x (List.mem_cons_of_mem _ h)]
    have length : i + (e :: kept).length = i + 1 + kept.length := by simp; omega
    rw [length, if_neg (List.cons_ne_nil e kept)]
    cases kept <;> simp

theorem splitIndices_stop {r : LiveRangeListEntry} {tail : List LiveRangeListEntry} {j : Nat}
    {found : Nat × Nat} (ends : p < r.range.to) :
    splitIndices p (r :: tail) j found = ((if r.range.from < p then (j, j) else found).1, j) := by
  simp [splitIndices, ends]

/-- The ranges of a sorted list ending by `p`, then the first range ending after it and the
rest: where `split_and_requeue_bundle` cuts. -/
def keptBy (p : Nat) (l : List LiveRangeListEntry) : List LiveRangeListEntry :=
  l.takeWhile fun e => decide (e.range.to ≤ p)

/-- A split point strictly inside a sorted bundle leaves a range ending after it, and the
scan's indices keep the ranges ending by it plus a straddling range, if there is one. -/
theorem splitIndices_eq {first : LiveRangeListEntry} {rest : List LiveRangeListEntry}
    (sorted : RangesSorted (first :: rest)) (after_start : first.range.from < p)
    (before_end : p < ((first :: rest).getLast (List.cons_ne_nil _ _)).range.to) :
    ∃ r tail, first :: rest = keptBy p (first :: rest) ++ r :: tail ∧ p < r.range.to ∧
      (r.range.from < p ∨ keptBy p (first :: rest) ≠ []) ∧
      splitIndices p (first :: rest) 0 (0, 0) =
        if r.range.from < p then ((keptBy p (first :: rest)).length, (keptBy p (first :: rest)).length)
        else ((keptBy p (first :: rest)).length - 1, (keptBy p (first :: rest)).length) := by
  have kept_before : ∀ e ∈ keptBy p (first :: rest), e.range.from < p ∧ e.range.to ≤ p :=
    fun e member => by
      have ends := List.mem_takeWhile_imp member
      have := KeysSorted.nonempty sorted e ((List.takeWhile_sublist _).subset member)
      simp at ends this; omega
  have split : keptBy p (first :: rest) ++
      (first :: rest).dropWhile (fun e => decide (e.range.to ≤ p)) = first :: rest :=
    List.takeWhile_append_dropWhile _ _
  cases remaining : (first :: rest).dropWhile (fun e => decide (e.range.to ≤ p)) with
  | nil =>
    rw [remaining, List.append_nil] at split
    have := (kept_before ((first :: rest).getLast (List.cons_ne_nil _ _))
      (by rw [split]; exact List.getLast_mem _)).2
    omega
  | cons r tail =>
    have ends : p < r.range.to := by
      have := List.head_dropWhile_not (fun e : LiveRangeListEntry => decide (e.range.to ≤ p))
        (first :: rest) (by simp [remaining])
      simp only [remaining, List.head_cons, decide_eq_false_iff_not] at this; omega
    rw [remaining] at split
    have starts_first : keptBy p (first :: rest) = [] → r = first := fun none_kept => by
      rw [none_kept, List.nil_append] at split
      exact List.head_eq_of_cons_eq split
    refine ⟨r, tail, split.symm, ends, ?_, ?_⟩
    · by_contra unreachable
      push_neg at unreachable
      have := starts_first unreachable.2
      subst this; omega
    · conv_lhs => rw [← split]
      rw [splitIndices_append _ _ 0 (0, 0) kept_before, splitIndices_stop ends]
      by_cases straddles : r.range.from < p
      · simp [straddles]
      · by_cases none_kept : keptBy p (first :: rest) = []
        · have := starts_first none_kept
          subst this; omega
        · simp [straddles, none_kept]

end Indices

end IonRegalloc
