import Mathlib.Data.List.Basic
import IonRegalloc.Proof.MergeScan

/-! The naive probe of one PReg for one bundle, and that `try_to_allocate_bundle_to_reg` without a
cost limit computes it. -/

namespace IonRegalloc

open AllocMap

/-- The bundles owning the valid entries, in order and with repeats. -/
def entryOwners (s : Env) (entries : AllocMap) : List Nat :=
  entries.filterMap fun e => e.2.map fun lr => (s.ranges lr).bundle

/-- The first point a visit's entry shares with its range. -/
def visitPoint (v : LiveRangeKey × (LiveRangeKey × Option Nat)) : Nat := max v.2.1.from v.1.from

/-- The map entries overlapping some range of the bundle, in key order. -/
def overlappingEntries (ranges : List LiveRangeListEntry) (m : AllocMap) : AllocMap :=
  m.filter fun e => !(rangesHit ranges e).isEmpty

/-- Every point where an entry of the map first meets a range of the bundle it overlaps. -/
def overlapPoints (ranges : List LiveRangeListEntry) (m : AllocMap) : List Nat :=
  m.flatMap fun e => (rangesHit ranges e).map fun entry => max e.1.from entry.range.from

/-- The map entries a bundle's ranges make. -/
def bundleEntries (ranges : List LiveRangeListEntry) : AllocMap :=
  ranges.map fun entry => (LiveRangeKey.fromRange entry.range, some entry.index)

/-- The naive per-range probe, from the entries overlapping the bundle. The first fixed
reservation among them stops it with the largest weight owning an entry before that one;
otherwise an overlap is a conflict with every owner, once each in order of first occurrence,
at the least overlap point; and no overlap assigns the bundle to `reg`. -/
def naiveProbe (s : Env) (bundle reg : Nat) : AllocRegResult × Env :=
  let ranges := (s.bundles bundle).ranges
  let m := (s.pregs reg).allocations
  let hits := overlappingEntries ranges m
  match hits.dropWhile (fun e => e.2.isSome), (overlapPoints ranges m).min? with
  | fixed :: _, _ =>
    (.conflictWithFixed
      (maximumSpillWeightInBundleSet s (entryOwners s (hits.takeWhile fun e => e.2.isSome)))
      fixed.1.from, s)
  | [], some point => (.conflict (entryOwners s hits).eraseDups point, s)
  | [], none => (.allocated (.reg reg), assignBundle s bundle reg)

section Weights

variable {s : Env}

theorem foldl_max_spillWeight_le_iff (n : Nat) : ∀ (l : List Nat) (a : Nat),
    l.foldl (fun m b => max m (s.bundles b).spillWeight) a ≤ n ↔
      a ≤ n ∧ ∀ b ∈ l, (s.bundles b).spillWeight ≤ n
  | [], a => by simp
  | b :: l, a => by simp [foldl_max_spillWeight_le_iff n l, and_assoc]

theorem maximumSpillWeightInBundleSet_le_iff {l : List Nat} {n : Nat} :
    maximumSpillWeightInBundleSet s l ≤ n ↔ ∀ b ∈ l, (s.bundles b).spillWeight ≤ n := by
  simp [maximumSpillWeightInBundleSet, foldl_max_spillWeight_le_iff]

theorem maximumSpillWeightInBundleSet_congr {l l' : List Nat} (same : ∀ b, b ∈ l ↔ b ∈ l') :
    maximumSpillWeightInBundleSet s l = maximumSpillWeightInBundleSet s l' :=
  le_antisymm
    (maximumSpillWeightInBundleSet_le_iff.mpr fun b member =>
      maximumSpillWeightInBundleSet_le_iff.mp le_rfl b ((same b).mp member))
    (maximumSpillWeightInBundleSet_le_iff.mpr fun b member =>
      maximumSpillWeightInBundleSet_le_iff.mp le_rfl b ((same b).mpr member))

@[simp] theorem maximumSpillWeightInBundleSet_append_singleton (l : List Nat) (b : Nat) :
    maximumSpillWeightInBundleSet s (l ++ [b]) =
      max (maximumSpillWeightInBundleSet s l) (s.bundles b).spillWeight := by
  simp [maximumSpillWeightInBundleSet]

end Weights

theorem mem_eraseDups_loop {a : Nat} : ∀ (l acc : List Nat),
    a ∈ List.eraseDups.loop l acc ↔ a ∈ l ∨ a ∈ acc
  | [], acc => by simp [List.eraseDups.loop]
  | b :: l, acc => by
    by_cases known : b ∈ acc
    · simp only [List.eraseDups.loop, List.elem_eq_mem, known, decide_True,
        mem_eraseDups_loop l acc, List.mem_cons]
      constructor
      · rintro (inL | inAcc) <;> simp [*]
      · rintro ((rfl | inL) | inAcc) <;> simp [*]
    · simp only [List.eraseDups.loop, List.elem_eq_mem, known, decide_False,
        mem_eraseDups_loop l (b :: acc), List.mem_cons, or_assoc]
      exact or_left_comm

section Record

variable {s : Env} {c : Option Nat}

theorem recordAll_append (p q : List (LiveRangeKey × (LiveRangeKey × Option Nat)))
    (scan : ConflictScan) :
    recordAll s c (p ++ q) scan = recordAll s c p scan >>= recordAll s c q := by
  induction p generalizing scan with
  | nil => rfl
  | cons v p ih =>
    obtain ⟨key, pregKey, pregRange⟩ := v
    simp only [List.cons_append, recordAll]
    cases recordConflict s c key pregKey pregRange scan with
    | error _ => rfl
    | ok scan => exact ih scan

/-- Without a cost limit, visits of valid entries never stop the scan: each new owner is
appended once, the weight stays the largest of the conflicts', and the first visit's point is
noted. -/
theorem recordAll_none_of_valid :
    ∀ (visits : List (LiveRangeKey × (LiveRangeKey × Option Nat))) (scan : ConflictScan),
      (∀ v ∈ visits, v.2.2.isSome) →
      scan.maxConflictWeight = maximumSpillWeightInBundleSet s scan.conflicts →
      ∃ scan', recordAll s none visits scan = .ok scan' ∧
        scan'.conflicts =
          List.eraseDups.loop (entryOwners s (visits.map Prod.snd)) scan.conflicts.reverse ∧
        scan'.maxConflictWeight = maximumSpillWeightInBundleSet s scan'.conflicts ∧
        scan'.firstConflict = scan.firstConflict.or (visits.head?.map visitPoint)
  | [], scan, _, weight => ⟨scan, rfl, by simp [entryOwners, List.eraseDups.loop], weight, by simp⟩
  | (key, pregKey, pregRange) :: rest, scan, valid, weight => by
    obtain ⟨lr, rfl⟩ := Option.isSome_iff_exists.mp (valid _ (List.mem_cons_self _ _))
    have restValid := fun v member => valid v (List.mem_cons_of_mem _ member)
    have owners : entryOwners s ((((key, pregKey, some lr) :: rest)).map Prod.snd) =
        (s.ranges lr).bundle :: entryOwners s (rest.map Prod.snd) := by simp [entryOwners]
    by_cases known : (s.ranges lr).bundle ∈ scan.conflicts
    · obtain ⟨scan', run, conflicts, weight', first⟩ :=
        recordAll_none_of_valid rest (scan.noteFirst pregKey key) restValid (by simpa using weight)
      refine ⟨scan', by simpa [recordAll, recordConflict, known] using run, ?_, weight', ?_⟩
      · rw [conflicts, owners]; simp [List.eraseDups.loop, known]
      · simp only [first, ConflictScan.noteFirst_firstConflict]; cases scan.firstConflict <;> rfl
    · obtain ⟨scan', run, conflicts, weight', first⟩ :=
        recordAll_none_of_valid rest
          ({ scan with conflicts := scan.conflicts ++ [(s.ranges lr).bundle],
                       maxConflictWeight := max scan.maxConflictWeight
                         (s.bundles (s.ranges lr).bundle).spillWeight }.noteFirst pregKey key)
          restValid (by simp [weight])
      refine ⟨scan', by simpa [recordAll, recordConflict, known, exceedsCost] using run, ?_,
        weight', ?_⟩
      · rw [conflicts, owners]; simp [List.eraseDups.loop, known]
      · simp only [first, ConflictScan.noteFirst_firstConflict]; cases scan.firstConflict <;> rfl

end Record

section Visits

variable {ranges : List LiveRangeListEntry}

theorem hitPairs_map_snd (ranges : List LiveRangeListEntry) : ∀ m : AllocMap,
    (hitPairs ranges m).map Prod.snd = overlappingEntries ranges m
  | [] => rfl
  | e :: rest => by
    cases hit : rangesHit ranges e with
    | nil => simp [hitPairs_cons_of_miss hit, overlappingEntries, hit, hitPairs_map_snd ranges rest]
    | cons k ks =>
      have visit : hitPairs ranges (e :: rest) =
          (LiveRangeKey.fromRange k.range, e) :: hitPairs ranges rest := by simp [hitPairs, hit]
      simp [visit, overlappingEntries, hit, hitPairs_map_snd ranges rest]

/-- On a sorted map, for ranges sorted by start, the first visit's point is the least overlap
point: later ranges of the same entry start later, and later entries start after it ends. -/
theorem overlapPoints_min? (sortedByStart : ranges.Pairwise fun a b => a.range.from ≤ b.range.from) :
    ∀ {m : AllocMap}, Sorted m →
      (overlapPoints ranges m).min? = (hitPairs ranges m).head?.map visitPoint
  | [], _ => rfl
  | e :: rest, sorted => by
    obtain ⟨nonempty, below, rest_sorted⟩ := (sorted_cons_iff e).mp sorted
    have hitSorted : (rangesHit ranges e).Pairwise fun a b => a.range.from ≤ b.range.from :=
      sortedByStart.sublist (List.filter_sublist _)
    cases hit : rangesHit ranges e with
    | nil =>
      rw [hitPairs_cons_of_miss hit, ← overlapPoints_min? sortedByStart rest_sorted]
      simp [overlapPoints, hit]
    | cons k ks =>
      have kOverlaps : k.range.from < e.1.to := by
        have := List.mem_filter.mp (hit ▸ List.mem_cons_self k ks : k ∈ rangesHit ranges e)
        simpa using (of_decide_eq_true this.2).1
      rw [hit] at hitSorted
      have kFirst := (List.pairwise_cons.mp hitSorted).1
      have visit : hitPairs ranges (e :: rest) =
          (LiveRangeKey.fromRange k.range, e) :: hitPairs ranges rest := by simp [hitPairs, hit]
      rw [visit, List.head?_cons, Option.map_some', List.min?_eq_some_iff']
      refine ⟨by simp [overlapPoints, hit, visitPoint], fun b member => ?_⟩
      simp only [overlapPoints, List.flatMap_cons, hit, List.map_cons, List.cons_append,
        List.mem_cons, List.mem_append, List.mem_map, List.mem_flatMap] at member
      simp only [visitPoint, LiveRangeKey.fromRange_from]
      rcases member with rfl | ⟨x, inKs, rfl⟩ | ⟨e', inRest, x, -, rfl⟩
      · exact le_rfl
      · have := kFirst x inKs; omega
      · have := below e' inRest; omega

end Visits

theorem insertRanges_perm : ∀ (ranges : List LiveRangeListEntry) (m : AllocMap),
    ranges.Pairwise (fun a b =>
      ¬ (LiveRangeKey.fromRange a.range).Overlaps (LiveRangeKey.fromRange b.range)) →
    (∀ e ∈ m, ∀ r ∈ ranges, ¬ (LiveRangeKey.fromRange r.range).Overlaps e.1) →
    (insertRanges ranges m).Perm (bundleEntries ranges ++ m)
  | [], m, _, _ => by simp [insertRanges, bundleEntries]
  | r :: rs, m, disjoint, free => by
    obtain ⟨apart, restDisjoint⟩ := List.pairwise_cons.mp disjoint
    have inserted : (m.insert (LiveRangeKey.fromRange r.range) (some r.index)).Perm
        ((LiveRangeKey.fromRange r.range, some r.index) :: m) :=
      insert_perm fun e member => free e member r (List.mem_cons_self _ _)
    have rest := insertRanges_perm rs (m.insert (LiveRangeKey.fromRange r.range) (some r.index))
      restDisjoint fun e member x inRest => by
        rcases List.mem_cons.mp (inserted.subset member) with rfl | inM
        · exact fun overlap => apart x inRest overlap.symm
        · exact free e inM x (List.mem_cons_of_mem _ inRest)
    exact rest.trans ((inserted.append_left _).trans List.perm_middle)

theorem tryToAllocateBundleToReg_none_eq_naiveProbe {s : Env} {bundle reg : Nat}
    (sorted : Sorted (s.pregs reg).allocations) (ordered : RangesOrdered (s.bundles bundle).ranges)
    (nonempty : (s.bundles bundle).ranges ≠ []) :
    tryToAllocateBundleToReg s bundle reg none = .ok (naiveProbe s bundle reg) ∧
    (overlappingEntries (s.bundles bundle).ranges (s.pregs reg).allocations = [] →
      ((assignBundle s bundle reg).pregs reg).allocations.Perm
        (bundleEntries (s.bundles bundle).ranges ++ (s.pregs reg).allocations) ∧
      ((assignBundle s bundle reg).bundles bundle).allocation = .reg reg) := by
  refine ⟨?_, fun free => ⟨?_, by simp [assignBundle]⟩⟩
  · rw [tryToAllocateBundleToReg_eq_recordAll none sorted ordered.sortedByStart nonempty]
    generalize visitsDef : hitPairs (s.bundles bundle).ranges (s.pregs reg).allocations = visits
    have hits := visitsDef ▸ hitPairs_map_snd (s.bundles bundle).ranges (s.pregs reg).allocations
    have least := visitsDef ▸ overlapPoints_min? ordered.sortedByStart sorted
    have drop : (visits.map Prod.snd).dropWhile (fun e => e.2.isSome) =
        (visits.dropWhile fun v => v.2.2.isSome).map Prod.snd := by rw [List.dropWhile_map]; rfl
    have take : (visits.map Prod.snd).takeWhile (fun e => e.2.isSome) =
        (visits.takeWhile fun v => v.2.2.isSome).map Prod.snd := by rw [List.takeWhile_map]; rfl
    obtain ⟨scan, run, conflicts, weight, first⟩ :=
      @recordAll_none_of_valid s (visits.takeWhile fun v => v.2.2.isSome) ⟨[], 0, none⟩
        (fun v member => by simpa using List.mem_takeWhile_imp member) rfl
    simp only [naiveProbe, ← hits, least, drop, take]
    cases fixed : visits.dropWhile fun v => v.2.2.isSome with
    | cons v rest =>
      obtain ⟨key, pregKey, pregRange⟩ := v
      have invalid : pregRange = none := by
        simpa [fixed] using List.head_dropWhile_not (fun v => v.2.2.isSome) visits (by simp [fixed])
      subst invalid
      have split := List.takeWhile_append_dropWhile (fun v => v.2.2.isSome) visits
      rw [fixed] at split
      have sameWeight : maximumSpillWeightInBundleSet s scan.conflicts =
          maximumSpillWeightInBundleSet s
            (entryOwners s ((visits.takeWhile fun v => v.2.2.isSome).map Prod.snd)) := by
        rw [conflicts]; exact maximumSpillWeightInBundleSet_congr fun b => by simp [mem_eraseDups_loop]
      have stopped : recordAll s none visits ⟨[], 0, none⟩ =
          .error (.conflictWithFixed scan.maxConflictWeight pregKey.from) := by
        rw [← split, recordAll_append, run]; rfl
      rw [stopped, weight, sameWeight]
      rfl
    | nil =>
      have takeAll := List.takeWhile_eq_self_iff.mpr (List.dropWhile_eq_nil_iff.mp fixed)
      rw [takeAll] at run conflicts first
      rw [run]
      cases visits with
      | nil => simp [concludeScan, conflicts, entryOwners, List.eraseDups.loop]
      | cons v rest =>
        obtain ⟨lr, valid⟩ := Option.isSome_iff_exists.mp
          (List.dropWhile_eq_nil_iff.mp fixed v (List.mem_cons_self _ _))
        have found : 0 < scan.conflicts.length := List.length_pos_of_mem
          (show (s.ranges lr).bundle ∈ scan.conflicts by
            rw [conflicts]; simp [mem_eraseDups_loop, entryOwners, valid])
        simp only [concludeScan, found, if_true]
        rw [first, conflicts]
        rfl
  · simp only [assignBundle, Env.updatePReg_pregs, if_true, Env.updateBundle_pregs,
      Env.updateBundle_bundles]
    refine insertRanges_perm _ _ ordered.disjoint fun e member r inRanges overlap => ?_
    have miss : rangesHit (s.bundles bundle).ranges e = [] := by
      simpa using List.filter_eq_nil_iff.mp free e member
    exact List.filter_eq_nil_iff.mp miss r inRanges (decide_eq_true overlap.symm)


/-- Bundle 0 holds `[0, 4)` in PReg 0; bundle 1, with `[2, 6)`, probes that PReg. -/
def probeExample : Env where
  ranges lr := ⟨if lr = 0 then ⟨0, 4⟩ else ⟨2, 6⟩, some lr, lr, [], 0, false⟩
  numRanges := 2
  bundles b :=
    ⟨[⟨if b = 0 then ⟨0, 4⟩ else ⟨2, 6⟩, b⟩], b, if b = 0 then .reg 0 else .none, 4,
      if b = 0 then 10 else 20, false, false, false⟩
  numBundles := 2
  spillsets _ := ⟨0, 0, false, none⟩
  vregs _ := ⟨[]⟩
  pregs _ := ⟨[(⟨0, 4⟩, some 0)], false⟩
  allocationQueue := []
  spilledBundles := []

theorem probeExample_naiveProbe :
    Sorted (probeExample.pregs 0).allocations ∧ RangesOrdered (probeExample.bundles 1).ranges ∧
      (probeExample.bundles 1).ranges ≠ [] ∧
      (tryToAllocateBundleToReg probeExample 1 0 none = .ok (naiveProbe probeExample 1 0) ∧
        (overlappingEntries (probeExample.bundles 1).ranges (probeExample.pregs 0).allocations = [] →
          ((assignBundle probeExample 1 0).pregs 0).allocations.Perm
            (bundleEntries (probeExample.bundles 1).ranges ++ (probeExample.pregs 0).allocations) ∧
          ((assignBundle probeExample 1 0).bundles 1).allocation = .reg 0)) :=
  ⟨by decide, by decide, by decide,
    tryToAllocateBundleToReg_none_eq_naiveProbe (by decide) (by decide) (by decide)⟩

example : (naiveProbe probeExample 1 0).1 = .conflict [0] 2 := by decide

end IonRegalloc
