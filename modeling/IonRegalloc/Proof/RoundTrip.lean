import IonRegalloc.Proof.Outcome

/-! `evict_bundle` and `try_to_allocate_bundle_to_reg` undo each other on a bundle whose ranges
are sorted and disjoint. -/

namespace IonRegalloc

open AllocMap

section Maps

theorem sorted_insertRanges : ∀ (ranges : List LiveRangeListEntry) (m : AllocMap), Sorted m →
    RangesSorted ranges →
    (∀ e ∈ m, ∀ r ∈ ranges, ¬ (LiveRangeKey.fromRange r.range).Overlaps e.1) →
    Sorted (insertRanges ranges m)
  | [], _, sorted, _, _ => sorted
  | r :: rs, m, sorted, rangesSorted, free => by
    obtain ⟨nonempty, below, restSorted⟩ := (KeysSorted.cons_iff r).mp rangesSorted
    have fresh := fun e member => free e member r (List.mem_cons_self _ _)
    refine sorted_insertRanges rs _ (sorted_insert sorted nonempty fresh) restSorted
      fun e member x inRest => ?_
    rcases List.mem_cons.mp ((insert_perm fresh).subset member) with rfl | inM
    · have := below x inRest
      exact fun overlap => by have := overlap.2; simp only at this; omega
    · exact free e inM x (List.mem_cons_of_mem _ inRest)

theorem removeRanges_perm : ∀ (ranges : List LiveRangeListEntry) (m : AllocMap), Sorted m →
    RangesSorted ranges → (∀ r ∈ ranges, (LiveRangeKey.fromRange r.range, some r.index) ∈ m) →
    (removeRanges ranges m ++ bundleEntries ranges).Perm m
  | [], _, _, _, _ => by simp [removeRanges, bundleEntries]
  | r :: rs, m, sorted, rangesSorted, present => by
    obtain ⟨-, below, restSorted⟩ := (KeysSorted.cons_iff r).mp rangesSorted
    have here := present r (List.mem_cons_self _ _)
    have kept : ∀ x ∈ rs, (LiveRangeKey.fromRange x.range, some x.index) ∈
        remove (LiveRangeKey.fromRange r.range) m := fun x inRest => by
      rw [remove_eq_erase sorted here]
      refine (List.mem_erase_of_ne fun same => ?_).mpr (present x (List.mem_cons_of_mem _ inRest))
      have := below x inRest
      have := sorted.nonempty _ here
      simp only [Prod.mk.injEq] at same
      simp only [same.1] at *
      omega
    have rest := removeRanges_perm rs _ (sorted.sublist (remove_sublist _ _)) restSorted kept
    exact List.perm_middle.trans ((rest.cons _).trans (perm_cons_remove sorted here).symm)

theorem removeRanges_insertRanges {ranges : List LiveRangeListEntry} {m : AllocMap}
    (sorted : Sorted m) (rangesSorted : RangesSorted ranges)
    (free : ∀ e ∈ m, ∀ r ∈ ranges, ¬ (LiveRangeKey.fromRange r.range).Overlaps e.1) :
    removeRanges ranges (insertRanges ranges m) = m := by
  have inserted := insertRanges_perm ranges m rangesSorted.toOrdered.disjoint free
  have sorted' := sorted_insertRanges ranges m sorted rangesSorted free
  have removed := removeRanges_perm ranges _ sorted' rangesSorted fun r member =>
    inserted.symm.subset (List.mem_append_left _ (List.mem_map_of_mem _ member))
  refine KeysSorted.eq_of_perm (sorted'.sublist (removeRanges_sublist _ _)) sorted ?_
  exact (List.perm_append_right_iff _).mp (removed.trans (inserted.trans List.perm_append_comm))

theorem free_removeRanges {ranges : List LiveRangeListEntry} {m : AllocMap} (sorted : Sorted m)
    (present : ∀ r ∈ ranges, (LiveRangeKey.fromRange r.range, some r.index) ∈ m) :
    ∀ e ∈ removeRanges ranges m, ∀ r ∈ ranges, ¬ (LiveRangeKey.fromRange r.range).Overlaps e.1 :=
  fun e member r inRanges overlap => by
    have same := KeysSorted.eq_of_overlaps sorted (present r inRanges)
      ((removeRanges_sublist ranges m).subset member) overlap
    exact not_mem_removeRanges ranges m sorted r inRanges _ (same ▸ member)

theorem insertRanges_removeRanges {ranges : List LiveRangeListEntry} {m : AllocMap}
    (sorted : Sorted m) (rangesSorted : RangesSorted ranges)
    (present : ∀ r ∈ ranges, (LiveRangeKey.fromRange r.range, some r.index) ∈ m) :
    insertRanges ranges (removeRanges ranges m) = m := by
  have removed := removeRanges_perm ranges m sorted rangesSorted present
  have sortedRest := sorted.sublist (removeRanges_sublist ranges m)
  have free := free_removeRanges sorted present
  have inserted := insertRanges_perm ranges _ rangesSorted.toOrdered.disjoint free
  exact KeysSorted.eq_of_perm (sorted_insertRanges ranges _ sortedRest rangesSorted free) sorted
    (inserted.trans (List.perm_append_comm.trans removed))

end Maps

section States

variable {ctx : Ctx} {s : Env} {bundle reg : Nat}

theorem tryToAllocateBundleToReg_allocated_free {c : Option Nat} {alloc : Allocation} {s' : Env}
    (sorted : Sorted (s.pregs reg).allocations)
    (sortedByStart : (s.bundles bundle).ranges.Pairwise fun a b => a.range.from ≤ b.range.from)
    (probe : tryToAllocateBundleToReg s bundle reg c = .ok (.allocated alloc, s')) :
    ∀ e ∈ (s.pregs reg).allocations, ∀ r ∈ (s.bundles bundle).ranges,
      ¬ (LiveRangeKey.fromRange r.range).Overlaps e.1 := by
  intro e member r inRanges overlap
  have nonempty := (tryToAllocateBundleToReg_ok probe).1
  rw [tryToAllocateBundleToReg_eq_recordAll c sorted sortedByStart nonempty] at probe
  split at probe
  · rename_i result recorded
    cases probe
    simpa using recordAll_error _ _ _ recorded
  · rename_i scan recorded
    have hit : rangesHit (s.bundles bundle).ranges e ≠ [] :=
      List.ne_nil_of_mem (List.mem_filter.mpr ⟨inRanges, by simpa using overlap.symm⟩)
    obtain ⟨v, visit, rfl⟩ := mem_hitPairs member hit
    obtain ⟨-, visited, -⟩ := recordAll_ok _ _ _ recorded
    obtain ⟨lr, -, conflict⟩ := visited v visit
    simp only [concludeScan] at probe
    split at probe
    · split at probe <;> cases probe
    · rename_i none
      exact none (List.length_pos_of_mem conflict)

theorem evictBundle_assignBundle (unallocated : (s.bundles bundle).allocation = .none)
    (restored : removeRanges (s.bundles bundle).ranges
      (insertRanges (s.bundles bundle).ranges (s.pregs reg).allocations) =
        (s.pregs reg).allocations) :
    evictBundle ctx (assignBundle s bundle reg) bundle =
      s.enqueue bundle (s.bundles bundle).prio ctx.invalidPReg := by
  simp only [evictBundle, assignBundle, Allocation.asReg, Env.updateBundle, Env.updatePReg,
    Env.enqueue, Function.update_same, Function.update_idem, restored, ← unallocated]
  simp

theorem assignBundle_evictBundle (allocated : (s.bundles bundle).allocation = .reg reg)
    (restored : insertRanges (s.bundles bundle).ranges
      (removeRanges (s.bundles bundle).ranges (s.pregs reg).allocations) =
        (s.pregs reg).allocations) :
    assignBundle (evictBundle ctx s bundle) bundle reg =
      s.enqueue bundle (s.bundles bundle).prio ctx.invalidPReg := by
  simp only [evictBundle, allocated, Allocation.asReg]
  simp only [assignBundle, Env.updateBundle, Env.updatePReg, Env.enqueue, Function.update_same,
    Function.update_idem, restored]
  simp [← allocated]

/-- Evict and allocate undo each other on a bundle with sorted, disjoint ranges, in a state
meeting the occupancy invariant. An unallocated bundle that a probe allocates, evicted at once,
leaves the state as it was but for the bundle queued again. A bundle allocated to `reg` with a
range, once evicted, is allocated to `reg` again by a probe without limit, and that too leaves
the state as it was but for the queue. -/
theorem evictBundle_roundTrip (occupied : LooseOccupancy s)
    (rangesSorted : RangesSorted (s.bundles bundle).ranges) :
    ((s.bundles bundle).allocation = .none → ∀ reg c alloc s',
      tryToAllocateBundleToReg s bundle reg c = .ok (.allocated alloc, s') →
      evictBundle ctx s' bundle = s.enqueue bundle (s.bundles bundle).prio ctx.invalidPReg) ∧
    (∀ reg, (s.bundles bundle).allocation = .reg reg → (s.bundles bundle).ranges ≠ [] →
      tryToAllocateBundleToReg (evictBundle ctx s bundle) bundle reg none =
        .ok (.allocated (.reg reg), s.enqueue bundle (s.bundles bundle).prio ctx.invalidPReg)) := by
  have sortedByStart := rangesSorted.toOrdered.sortedByStart
  constructor
  · intro unallocated reg c alloc s' probe
    have free := tryToAllocateBundleToReg_allocated_free (occupied.sorted reg) sortedByStart probe
    obtain ⟨-, ⟨-, rfl⟩ | ⟨-, never⟩⟩ := tryToAllocateBundleToReg_ok probe
    · exact evictBundle_assignBundle unallocated
        (removeRanges_insertRanges (occupied.sorted reg) rangesSorted free)
    · exact absurd rfl (never alloc)
  · intro reg allocated nonempty
    have present := occupied.recorded bundle reg allocated
    have evicted : (evictBundle ctx s bundle).pregs reg =
        { s.pregs reg with
          allocations := removeRanges (s.bundles bundle).ranges (s.pregs reg).allocations } := by
      simp [evictBundle, allocated, Allocation.asReg]
    have unchanged : (evictBundle ctx s bundle).bundles bundle =
        { s.bundles bundle with allocation := .none } := by
      simp [evictBundle, allocated, Allocation.asReg]
    rw [tryToAllocateBundleToReg_free (by
        simpa [evicted] using (occupied.sorted reg).sublist (removeRanges_sublist _ _))
      (by simpa [unchanged] using sortedByStart) (by simpa [unchanged] using nonempty)
      fun e member => List.filter_eq_nil_iff.mpr fun r inRanges overlap => by
        simp only [unchanged, evicted] at member inRanges
        exact free_removeRanges (occupied.sorted reg) present e member r inRanges
          (by simpa using (of_decide_eq_true overlap).symm),
      assignBundle_evictBundle allocated (insertRanges_removeRanges (occupied.sorted reg)
        rangesSorted present)]

end States

/-- Bundle 1's ranges are out of order: its second range meets bundle 0's entry, which the
merge scan has already passed. Bundle 2 is allocated with no range. -/
def roundTripExample : Env :=
  { probeExample with
    ranges := fun lr => ⟨if lr = 1 then ⟨10, 14⟩ else ⟨0, 4⟩, some lr, if lr = 0 then 0 else 1, [],
      0, false⟩
    numRanges := 3
    bundles := fun b => match b with
      | 0 => ⟨[⟨⟨0, 4⟩, 0⟩], 0, .reg 0, 4, 10, false, false, false⟩
      | 1 => ⟨[⟨⟨10, 14⟩, 1⟩, ⟨⟨0, 4⟩, 2⟩], 0, .none, 4, 20, false, false, false⟩
      | _ => ⟨[], 0, .reg 0, 4, 0, false, false, false⟩
    numBundles := 3
    pregs := fun p => ⟨if p = 0 then [(⟨0, 4⟩, some 0)] else [], false⟩ }

theorem roundTripExample_looseOccupancy : LooseOccupancy roundTripExample where
  sorted p := by by_cases zero : p = 0 <;> simp [roundTripExample, zero] <;> decide
  recorded b p allocated entry member := by
    match b with
    | 0 =>
      simp only [roundTripExample, Allocation.reg.injEq] at allocated
      subst allocated
      simp only [roundTripExample, List.mem_singleton] at member
      subst member
      decide
    | 1 => simp [roundTripExample] at allocated
    | _ + 2 => simp [roundTripExample] at member
  unrecorded b unallocated entry member p e inMap := by
    match b with
    | 0 => exact absurd rfl (unallocated 0)
    | 1 =>
      by_cases zero : p = 0
      · simp only [roundTripExample, zero, if_true, List.mem_singleton] at inMap member
        subst inMap
        rcases List.mem_cons.mp member with rfl | inRest
        · decide
        · simp only [List.mem_singleton] at inRest; subst inRest; decide
      · simp [roundTripExample, zero] at inMap
    | _ + 2 => exact absurd rfl (unallocated 0)
  owned p e member lr valid := by
    by_cases zero : p = 0
    · simp only [roundTripExample, zero, if_true, List.mem_singleton] at member
      subst zero member
      cases valid
      exact ⟨rfl, _, List.mem_singleton_self _, rfl⟩
    · simp [roundTripExample, zero] at member

theorem retryExample_looseOccupancy : LooseOccupancy retryExample where
  sorted p := by by_cases zero : p = 0 <;> simp [retryExample, zero] <;> decide
  recorded b p allocated entry member := by
    match b with
    | 0 =>
      simp only [retryExample, probeExample, if_true, Allocation.reg.injEq] at allocated
      subst allocated
      simp only [retryExample, probeExample, if_true, List.mem_singleton] at member
      subst member
      decide
    | _ + 1 => simp [retryExample, probeExample] at allocated
  unrecorded b unallocated entry member p e inMap := by
    match b with
    | 0 => exact absurd rfl (unallocated 0)
    | b + 1 =>
      simp only [retryExample, probeExample, List.mem_singleton] at member
      by_cases zero : p = 0
      · simp only [retryExample, zero, if_true, List.mem_singleton] at inMap
        simp [inMap, member]
      · simp [retryExample, zero] at inMap
  owned p e member lr valid := by
    by_cases zero : p = 0
    · simp only [retryExample, zero, if_true, List.mem_singleton] at member
      subst zero member
      cases valid
      exact ⟨rfl, _, List.mem_singleton_self _, rfl⟩
    · simp [retryExample, zero] at member

/-- In the retry example, bundle 1 is unallocated with a sorted list and PReg 1 takes it, and
bundle 0 is allocated to PReg 0: each part of the round trip at a bundle it is about. -/
theorem retryExample_roundTrip :
    LooseOccupancy retryExample ∧ RangesSorted (retryExample.bundles 1).ranges ∧
      RangesSorted (retryExample.bundles 0).ranges ∧ (retryExample.bundles 1).allocation = .none ∧
      tryToAllocateBundleToReg retryExample 1 1 none =
        .ok (.allocated (.reg 1), assignBundle retryExample 1 1) ∧
      (retryExample.bundles 0).allocation = .reg 0 ∧
      ((retryExample.bundles 1).allocation = .none → ∀ reg c alloc s',
        tryToAllocateBundleToReg retryExample 1 reg c = .ok (.allocated alloc, s') →
        evictBundle probeCtx s' 1 = retryExample.enqueue 1 4 99) ∧
      (∀ reg, (retryExample.bundles 0).allocation = .reg reg →
        (retryExample.bundles 0).ranges ≠ [] →
        tryToAllocateBundleToReg (evictBundle probeCtx retryExample 0) 0 reg none =
          .ok (.allocated (.reg reg), retryExample.enqueue 0 4 99)) :=
  ⟨retryExample_looseOccupancy, by decide, by decide, rfl, rfl, rfl,
    (evictBundle_roundTrip retryExample_looseOccupancy (by decide)).1,
    (evictBundle_roundTrip retryExample_looseOccupancy (by decide)).2⟩

/-- The probe of bundle 1 misses the overlap of its second range with bundle 0's entry and
allocates; the insertion overwrites that entry and the eviction then deletes it. Evicting
bundle 2 removes nothing, and its probe stops on the empty range list. -/
theorem roundTripExample_breaks :
    LooseOccupancy roundTripExample ∧ (roundTripExample.bundles 1).allocation = .none ∧
      tryToAllocateBundleToReg roundTripExample 1 0 none =
        .ok (.allocated (.reg 0), assignBundle roundTripExample 1 0) ∧
      ((evictBundle probeCtx (assignBundle roundTripExample 1 0) 1).pregs 0).allocations = [] ∧
      (roundTripExample.pregs 0).allocations = [(⟨0, 4⟩, some 0)] ∧
      (roundTripExample.bundles 2).allocation = .reg 0 ∧
      tryToAllocateBundleToReg (evictBundle probeCtx roundTripExample 2) 2 0 none =
        .error (.panic unwrapNone) :=
  ⟨roundTripExample_looseOccupancy, rfl, rfl, by decide, rfl, rfl, rfl⟩

end IonRegalloc
