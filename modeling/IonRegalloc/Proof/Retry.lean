import IonRegalloc.Proof.Prune

/-! The attempt after an eviction allocates the bundle at the register whose conflicts it evicted
or at an earlier one. -/

namespace IonRegalloc

open AllocMap

/-- Exact occupancy: every PReg map is sorted, and each valid entry `key ↦ lr` of a map is the
entry of a range of the bundle owning `lr`, keyed by that range, and that bundle is allocated to
the map's register. -/
structure Occupancy (s : Env) : Prop where
  sorted : ∀ p, Sorted (s.pregs p).allocations
  owned : ∀ p, ∀ e ∈ (s.pregs p).allocations, ∀ lr, e.2 = some lr →
    (s.bundles (s.ranges lr).bundle).allocation = .reg p ∧
    ∃ entry ∈ (s.bundles (s.ranges lr).bundle).ranges,
      entry.index = lr ∧ LiveRangeKey.fromRange entry.range = e.1

section Scan

variable {s : Env} {c : Option Nat}

/-- A scan that runs to its end met only valid entries, whose owners are all conflicts; it keeps
the conflicts it had, and notes a first conflict unless it visited nothing. -/
theorem recordAll_ok : ∀ (visits : List (LiveRangeKey × (LiveRangeKey × Option Nat)))
    (scan scan' : ConflictScan), recordAll s c visits scan = .ok scan' →
    (∀ b ∈ scan.conflicts, b ∈ scan'.conflicts) ∧
    (∀ v ∈ visits, ∃ lr, v.2.2 = some lr ∧ (s.ranges lr).bundle ∈ scan'.conflicts) ∧
    (scan'.firstConflict.isSome ∨ scan' = scan)
  | [], scan, scan', run => by cases run; exact ⟨fun _ h => h, by simp, .inr rfl⟩
  | (_, _, none) :: _, _, _, run => by cases run
  | (key, pregKey, some lr) :: rest, scan, scan', run => by
    by_cases known : (s.ranges lr).bundle ∈ scan.conflicts
    · rw [recordAll, recordConflict_known known] at run
      obtain ⟨grow, visited, noted⟩ := recordAll_ok rest _ _ run
      refine ⟨fun b h => grow b (by simpa using h), ?_, .inl ?_⟩
      · rintro v (_ | ⟨_, inRest⟩)
        · exact ⟨lr, rfl, grow _ (by simpa using known)⟩
        · exact visited v inRest
      · rcases noted with noted | rfl
        · exact noted
        · simp
    · rw [recordAll, recordConflict_fresh known] at run
      split at run
      · cases run
      obtain ⟨grow, visited, noted⟩ := recordAll_ok rest _ _ run
      refine ⟨fun b h => grow b (by simp [h]), ?_, .inl ?_⟩
      · rintro v (_ | ⟨_, inRest⟩)
        · exact ⟨lr, rfl, grow _ (by simp)⟩
        · exact visited v inRest
      · rcases noted with noted | rfl
        · exact noted
        · simp

theorem recordAll_error : ∀ (visits : List (LiveRangeKey × (LiveRangeKey × Option Nat)))
    (scan : ConflictScan) (result : AllocRegResult), recordAll s c visits scan = .error result →
    (∃ cost point, result = .conflictWithFixed cost point) ∨ result = .conflictHighCost
  | [], _, _, run => by cases run
  | (_, _, none) :: _, _, _, run => by cases run; exact .inl ⟨_, _, rfl⟩
  | (key, pregKey, some lr) :: rest, scan, result, run => by
    by_cases known : (s.ranges lr).bundle ∈ scan.conflicts
    · rw [recordAll, recordConflict_known known] at run
      exact recordAll_error rest _ _ run
    · rw [recordAll, recordConflict_fresh known] at run
      split at run
      · cases run; exact .inr rfl
      · exact recordAll_error rest _ _ run

end Scan

section Probe

variable {s : Env} {bundle reg : Nat} {c : Option Nat}

theorem mem_hitPairs {ranges : List LiveRangeListEntry} {m : AllocMap}
    {e : LiveRangeKey × Option Nat} (member : e ∈ m) (hit : rangesHit ranges e ≠ []) :
    ∃ v ∈ hitPairs ranges m, v.2 = e := by
  obtain ⟨first, rest, split⟩ := List.exists_cons_of_ne_nil hit
  exact ⟨(LiveRangeKey.fromRange first.range, e), List.mem_filterMap.mpr ⟨e, member, by simp [split]⟩,
    rfl⟩

/-- The probe of a nonempty bundle sorted by start against a sorted map never fails; it
allocates only to the register probed, and it reports a conflict only when every entry
overlapping the bundle is valid with its owner among the conflicts. -/
theorem tryToAllocateBundleToReg_cases (sorted : Sorted (s.pregs reg).allocations)
    (sortedByStart : (s.bundles bundle).ranges.Pairwise fun a b => a.range.from ≤ b.range.from)
    (nonempty : (s.bundles bundle).ranges ≠ []) :
    ∃ result s', tryToAllocateBundleToReg s bundle reg c = .ok (result, s') ∧
      (∀ alloc, result = .allocated alloc → alloc = .reg reg ∧ s' = assignBundle s bundle reg) ∧
      (∀ bundles point, result = .conflict bundles point →
        ∀ e ∈ (s.pregs reg).allocations, rangesHit (s.bundles bundle).ranges e ≠ [] →
          ∃ lr, e.2 = some lr ∧ (s.ranges lr).bundle ∈ bundles) := by
  rw [tryToAllocateBundleToReg_eq_recordAll c sorted sortedByStart nonempty]
  cases recorded : recordAll s c (hitPairs (s.bundles bundle).ranges (s.pregs reg).allocations)
      ⟨[], 0, none⟩ with
  | error result =>
    have stopped := recordAll_error _ _ _ recorded
    refine ⟨result, s, rfl, fun alloc same => ?_, fun bundles point same => ?_⟩ <;>
      subst same <;> simp at stopped
  | ok scan =>
    obtain ⟨-, visited, noted⟩ := recordAll_ok _ _ _ recorded
    simp only [concludeScan]
    split
    · rename_i found
      rcases noted with noted | rfl
      · obtain ⟨point, first⟩ := Option.isSome_iff_exists.mp noted
        refine ⟨_, _, by rw [first], by simp, ?_⟩
        rintro bundles point' ⟨⟩ e member hit
        obtain ⟨v, visit, rfl⟩ := mem_hitPairs member hit
        exact visited v visit
      · simp at found
    · exact ⟨_, _, rfl, by simp, by simp⟩

theorem tryToAllocateBundleToReg_free (sorted : Sorted (s.pregs reg).allocations)
    (sortedByStart : (s.bundles bundle).ranges.Pairwise fun a b => a.range.from ≤ b.range.from)
    (nonempty : (s.bundles bundle).ranges ≠ [])
    (free : ∀ e ∈ (s.pregs reg).allocations, rangesHit (s.bundles bundle).ranges e = []) :
    tryToAllocateBundleToReg s bundle reg c =
      .ok (.allocated (.reg reg), assignBundle s bundle reg) := by
  have unvisited : hitPairs (s.bundles bundle).ranges (s.pregs reg).allocations = [] :=
    List.filterMap_eq_nil_iff.mpr fun e member => by simp [free e member]
  rw [tryToAllocateBundleToReg_eq_recordAll c sorted sortedByStart nonempty, unvisited]
  rfl

end Probe

section Evict

variable {ctx : Ctx}

theorem not_mem_remove {m : AllocMap} (sorted : Sorted m) (key : LiveRangeKey)
    (value : Option Nat) : (key, value) ∉ remove key m := fun member => by
  have present := (remove_sublist key m).subset member
  rw [remove_eq_erase sorted present] at member
  exact (KeysSorted.nodup sorted).not_mem_erase member

theorem not_mem_removeRanges : ∀ (ranges : List LiveRangeListEntry) (m : AllocMap), Sorted m →
    ∀ entry ∈ ranges, ∀ value, (LiveRangeKey.fromRange entry.range, value) ∉ removeRanges ranges m
  | [], _, _, _, member, _ => by simp at member
  | r :: rest, m, sorted, entry, member, value => fun found => by
    rcases List.mem_cons.mp member with rfl | inRest
    · exact not_mem_remove sorted _ value ((removeRanges_sublist rest _).subset found)
    · exact not_mem_removeRanges rest _ (KeysSorted.sublist sorted (remove_sublist _ m)) entry
        inRest value found

theorem evictBundle_bundles_of_ne {s : Env} {x b : Nat} (ne : b ≠ x) :
    (evictBundle ctx s x).bundles b = s.bundles b := by
  unfold evictBundle; split
  · rfl
  · simp [ne]

theorem evictBundle_allocations_of_reg {s : Env} {x p : Nat}
    (allocated : (s.bundles x).allocation = .reg p) :
    ((evictBundle ctx s x).pregs p).allocations =
      removeRanges (s.bundles x).ranges (s.pregs p).allocations := by
  simp [evictBundle, allocated, Allocation.asReg]

theorem evictAll_removes {o p : Nat} {entry : LiveRangeListEntry} {value : Option Nat} :
    ∀ (bundles : List Nat) (s : Env), o ∈ bundles → (s.bundles o).allocation = .reg p →
      Sorted (s.pregs p).allocations → entry ∈ (s.bundles o).ranges →
      (LiveRangeKey.fromRange entry.range, value) ∉ ((evictAll ctx s bundles).pregs p).allocations
  | [], _, member, _, _, _ => by simp at member
  | x :: rest, s, member, allocated, sorted, owned => fun found => by
    have later := (evictAll_allocations_sublist (evictBundle ctx s x) rest p).subset found
    by_cases here : x = o
    · subst here
      rw [evictBundle_allocations_of_reg allocated] at later
      exact not_mem_removeRanges _ _ sorted entry owned value later
    · have same : (evictBundle ctx s x).bundles o = s.bundles o :=
        evictBundle_bundles_of_ne (Ne.symm here)
      exact evictAll_removes rest (evictBundle ctx s x)
        ((List.mem_cons.mp member).resolve_left (Ne.symm here)) (same ▸ allocated)
        (KeysSorted.sublist sorted (evictBundle_allocations_sublist p)) (same ▸ owned) found

theorem evictAll_free {s : Env} {bundle reg : Nat} {bundles : List Nat} (occupancy : Occupancy s)
    (reported : ∀ e ∈ (s.pregs reg).allocations, rangesHit (s.bundles bundle).ranges e ≠ [] →
      ∃ lr, e.2 = some lr ∧ (s.ranges lr).bundle ∈ bundles) :
    ∀ e ∈ ((evictAll ctx s bundles).pregs reg).allocations,
      rangesHit (s.bundles bundle).ranges e = [] := by
  intro e member
  by_contra hit
  have before := (evictAll_allocations_sublist s bundles reg).subset member
  obtain ⟨lr, valid, inSet⟩ := reported e before hit
  obtain ⟨allocated, entry, owned, -, key⟩ := occupancy.owned reg e before lr valid
  apply (evictAll_removes bundles s inSet allocated (occupancy.sorted reg) owned :
    (LiveRangeKey.fromRange entry.range, e.2) ∉ _)
  rw [key]
  exact member

end Evict

section Loop

variable {ctx : Ctx} {limit : Option Nat → Option Nat → Option Nat} {s : Env} {bundle : Nat}

theorem ProbeBest.noteResult_evictSet (best : ProbeBest) (preg : Nat) (result : AllocRegResult) :
    (best.noteResult ctx s preg result).evictSet = best.evictSet ∨
      ∃ set point, result = .conflict set point ∧
        (best.noteResult ctx s preg result).evictSet = some set := by
  cases result with
  | conflict set point =>
    by_cases lower : lowerCost (maximumSpillWeightInBundleSet s set) best.evictCost = true
    · exact .inr ⟨set, point, rfl, by simp [noteResult, noteConflict, lower]⟩
    · exact .inl (by simp [noteResult, noteConflict, lower])
  | conflictWithFixed cost point => exact .inl (by simp [noteResult, noteFixedConflict])
  | _ => exact .inl rfl

theorem probeRegs_evictSet {bundles : List Nat} : ∀ (pregs : List Nat) (best best' : ProbeBest),
    probeRegs ctx limit s bundle pregs best = .ok (.exhausted best') →
    best'.evictSet = some bundles →
    best.evictSet = some bundles ∨ ∃ pre p post c point s₀, pregs = pre ++ p :: post ∧
      tryToAllocateBundleToReg s bundle p c = .ok (.conflict bundles point, s₀)
  | [], best, best', probed, kept => by cases probed; exact .inl kept
  | preg :: rest, best, best', probed, kept => by
    simp only [probeRegs] at probed
    split at probed
    · cases probed
    · cases probed
    · rename_i result s₀ _ probe
      rcases probeRegs_evictSet rest _ _ probed kept with inherited | ⟨pre, p, post, c, point, s₁,
        split, conflict⟩
      · rcases best.noteResult_evictSet preg result with same | ⟨set, point, rfl, noted⟩
        · exact .inl (same ▸ inherited)
        · rw [noted, Option.some.injEq] at inherited
          subst inherited
          exact .inr ⟨[], preg, rest, _, point, s₀, rfl, probe⟩
      · exact .inr ⟨preg :: pre, p, post, c, point, s₁, by rw [split]; rfl, conflict⟩

/-- A probe loop over registers that probe without failing, allocating only where probed, up to
one where the bundle is free, allocates the bundle there or at an earlier register. -/
theorem probeRegs_allocates {pStar : Nat} {post : List Nat}
    (free : ∀ c, tryToAllocateBundleToReg s bundle pStar c =
      .ok (.allocated (.reg pStar), assignBundle s bundle pStar)) :
    ∀ (pre : List Nat) (best : ProbeBest), (∀ q ∈ pre, ∀ c, ∃ result s',
      tryToAllocateBundleToReg s bundle q c = .ok (result, s') ∧
        ∀ alloc, result = .allocated alloc → alloc = .reg q ∧ s' = assignBundle s bundle q) →
      ∃ p, (p ∈ pre ∨ p = pStar) ∧ probeRegs ctx limit s bundle (pre ++ pStar :: post) best =
        .ok (.allocated (.reg p) (assignBundle s bundle p))
  | [], best, _ => ⟨pStar, .inr rfl, by simp [probeRegs, free]⟩
  | q :: pre, best, fine => by
    obtain ⟨result, s', probe, onlyHere⟩ :=
      fine q (List.mem_cons_self _ _) (limit best.evictCost best.splitCost)
    obtain ⟨p, which, run⟩ : ∃ p, (p ∈ pre ∨ p = pStar) ∧
        probeRegs ctx limit s bundle (pre ++ pStar :: post) (best.noteResult ctx s q result) =
          .ok (.allocated (.reg p) (assignBundle s bundle p)) :=
      probeRegs_allocates free pre _ fun q' h => fine q' (.tail _ h)
    cases result
    case allocated alloc =>
      obtain ⟨rfl, rfl⟩ := onlyHere alloc rfl
      exact ⟨q, .inl (List.mem_cons_self _ _), by simp [probeRegs, probe]⟩
    all_goals exact ⟨p, which.imp_left (List.mem_cons_of_mem _), by simp [probeRegs, probe, run]⟩

end Loop

section Retry

variable {ctx : Ctx} {limit : Option Nat → Option Nat → Option Nat} {s : Env}
  {bundle regClass hintReg : Nat} {req : Requirement} {bundles : List Nat}
  {first : LiveRangeListEntry}

/-- After a probe-and-decide that evicts, the next one walks the same registers on the evicted
state and allocates the bundle at the register whose conflicts were evicted or at an earlier
one. -/
theorem probeAndDecide_retry {fixedPreg : Option Nat} (occupancy : Occupancy s)
    (sorted : RangesSorted (s.bundles bundle).ranges)
    (firstEntry : (s.bundles bundle).ranges.head? = some first)
    (evicted : probeAndDecide ctx limit s bundle regClass hintReg req 1 fixedPreg =
      .ok (.evict bundles)) :
    ∃ pre pStar post, ctx.regTraversal regClass hintReg ctx.invalidPReg
        (ProgPoint.inst (s.ranges first.index).range.from + bundle) fixedPreg = pre ++ pStar :: post ∧
      (∃ c point s₀, tryToAllocateBundleToReg s bundle pStar c = .ok (.conflict bundles point, s₀)) ∧
      ∃ p, (p ∈ pre ∨ p = pStar) ∧
        probeRegs ctx limit (evictAll ctx s bundles) bundle (pre ++ pStar :: post)
            (ProbeBest.initial ctx) =
          .ok (.allocated (.reg p) (assignBundle (evictAll ctx s bundles) bundle p)) ∧
        probeAndDecide ctx limit (evictAll ctx s bundles) bundle regClass hintReg req 2 fixedPreg =
          .ok (.done ((assignBundle (evictAll ctx s bundles) bundle p).updateSpillSet
            (s.bundles bundle).spillset fun ss => { ss with regHint := p })) := by
  have nonempty : (s.bundles bundle).ranges ≠ [] := fun empty => by simp [empty] at firstEntry
  have sortedByStart := sorted.toOrdered.sortedByStart
  simp only [probeAndDecide, firstEntry] at evicted
  split at evicted
  · cases evicted
  · split at evicted <;> cases evicted
  rename_i best probed
  obtain ⟨kept, -, -⟩ := decideAfterProbe_eq_evict evicted
  rcases probeRegs_evictSet _ _ _ probed kept with initial | ⟨pre, pStar, post, c, point, s₀,
    split, conflict⟩
  · cases initial
  refine ⟨pre, pStar, post, split, ⟨c, point, s₀, conflict⟩, ?_⟩
  obtain ⟨result, s₁, probe, -, reported⟩ :=
    @tryToAllocateBundleToReg_cases s bundle pStar c (occupancy.sorted pStar) sortedByStart nonempty
  rw [conflict, Except.ok.injEq, Prod.mk.injEq] at probe
  have free : ∀ e ∈ ((evictAll ctx s bundles).pregs pStar).allocations,
      rangesHit (s.bundles bundle).ranges e = [] :=
    evictAll_free occupancy (reported bundles point probe.1.symm)
  obtain ⟨alloc, evictedRec⟩ := evictAll_bundles ctx s bundles bundle
  have ranges' : ((evictAll ctx s bundles).bundles bundle).ranges = (s.bundles bundle).ranges := by
    rw [evictedRec]
  have sorted' : ∀ p, Sorted ((evictAll ctx s bundles).pregs p).allocations := fun p =>
    KeysSorted.sublist (occupancy.sorted p) (evictAll_allocations_sublist s bundles p)
  obtain ⟨p, which, run⟩ : ∃ p, (p ∈ pre ∨ p = pStar) ∧
      probeRegs ctx limit (evictAll ctx s bundles) bundle (pre ++ pStar :: post)
          (ProbeBest.initial ctx) =
        .ok (.allocated (.reg p) (assignBundle (evictAll ctx s bundles) bundle p)) :=
    probeRegs_allocates
      (fun c => tryToAllocateBundleToReg_free (sorted' pStar) (ranges' ▸ sortedByStart)
        (ranges' ▸ nonempty) (ranges' ▸ free))
      pre (ProbeBest.initial ctx) fun q _ c => by
        obtain ⟨result, s₂, probe, allocated, -⟩ := @tryToAllocateBundleToReg_cases _ bundle q c
          (sorted' q) (ranges' ▸ sortedByStart) (ranges' ▸ nonempty)
        exact ⟨result, s₂, probe, allocated⟩
  refine ⟨p, which, run, ?_⟩
  simp only [probeAndDecide, ranges', firstEntry, evictAll_ranges, split, run, Allocation.asReg]
  simp [assignBundle, evictedRec]

theorem processAttempt_eq_probeAndDecide
    (evicted : processAttempt ctx limit s bundle regClass hintReg req 1 = .ok (.evict bundles)) :
    ∃ fixedPreg, ∀ s' attempts, processAttempt ctx limit s' bundle regClass hintReg req attempts =
      probeAndDecide ctx limit s' bundle regClass hintReg req attempts fixedPreg := by
  cases req with
  | any | stack => cases evicted
  | register => exact ⟨none, fun _ _ => rfl⟩
  | fixedReg p | fixedStack p => exact ⟨some p, fun _ _ => rfl⟩

/-- What follows an eviction of `bundles` at the first attempt: the traversal walked reaches a
register `pStar` whose probe reported exactly these bundles, the same walk on the evicted state
allocates the bundle at `pStar` or at a register before it, and the attempt loop ends with that
allocation whatever its fuel. -/
def AllocatedOnRetry (ctx : Ctx) (limit : Option Nat → Option Nat → Option Nat) (s : Env)
    (bundle regClass hintReg : Nat) (req : Requirement) (first : LiveRangeListEntry)
    (bundles : List Nat) : Prop :=
  ∃ fixedPreg pre pStar post, ctx.regTraversal regClass hintReg ctx.invalidPReg
      (ProgPoint.inst (s.ranges first.index).range.from + bundle) fixedPreg = pre ++ pStar :: post ∧
    (∃ c point s₀, tryToAllocateBundleToReg s bundle pStar c = .ok (.conflict bundles point, s₀)) ∧
    ∃ p s', (p ∈ pre ∨ p = pStar) ∧
      probeRegs ctx limit (evictAll ctx s bundles) bundle (pre ++ pStar :: post)
          (ProbeBest.initial ctx) =
        .ok (.allocated (.reg p) (assignBundle (evictAll ctx s bundles) bundle p)) ∧
      (∀ fuel, attemptLoop ctx limit bundle regClass hintReg req (fuel + 2) 0 s = .ok s') ∧
      (s'.bundles bundle).allocation = .reg p

theorem attemptLoop_allocates_after_evict (occupancy : Occupancy s)
    (sorted : RangesSorted (s.bundles bundle).ranges)
    (firstEntry : (s.bundles bundle).ranges.head? = some first)
    (evicted : processAttempt ctx limit s bundle regClass hintReg req 1 = .ok (.evict bundles)) :
    AllocatedOnRetry ctx limit s bundle regClass hintReg req first bundles := by
  obtain ⟨fixedPreg, probes⟩ := processAttempt_eq_probeAndDecide evicted
  rw [probes] at evicted
  obtain ⟨pre, pStar, post, split, conflict, p, which, run, retried⟩ :=
    probeAndDecide_retry occupancy sorted firstEntry evicted
  refine ⟨fixedPreg, pre, pStar, post, split, conflict, p,
    (assignBundle (evictAll ctx s bundles) bundle p).updateSpillSet (s.bundles bundle).spillset
      fun ss => { ss with regHint := p }, which, run, fun fuel => ?_, ?_⟩
  · simp only [attemptLoop, Nat.zero_add, probes, evicted, retried]
  · simp [assignBundle]

end Retry

/-- Bundle 0 holds `[0, 4)` in PReg 0 alone; bundle 1, with `[2, 6)`, probes that PReg. -/
def retryExample : Env :=
  { probeExample with pregs := fun p => ⟨if p = 0 then [(⟨0, 4⟩, some 0)] else [], false⟩ }

theorem retryExample_occupancy : Occupancy retryExample where
  sorted p := by by_cases zero : p = 0 <;> simp [retryExample, zero] <;> decide
  owned p e member lr valid := by
    by_cases zero : p = 0
    · simp only [retryExample, zero, if_true, List.mem_singleton] at member
      subst member zero
      cases valid
      exact ⟨rfl, _, List.mem_singleton_self _, rfl, rfl⟩
    · simp [retryExample, zero] at member

theorem retryExample_allocates_after_evict :
    Occupancy retryExample ∧ RangesSorted (retryExample.bundles 1).ranges ∧
      (retryExample.bundles 1).ranges.head? = some ⟨⟨2, 6⟩, 1⟩ ∧
      processAttempt probeCtx scanLimitCost retryExample 1 0 99 .register 1 = .ok (.evict [0]) ∧
      AllocatedOnRetry probeCtx scanLimitCost retryExample 1 0 99 .register ⟨⟨2, 6⟩, 1⟩ [0] :=
  ⟨retryExample_occupancy, by decide, rfl, rfl,
    attemptLoop_allocates_after_evict retryExample_occupancy (by decide) rfl rfl⟩

/-- The occupancy invariant without tying an entry's key to its live range: sorted maps, every
range of a register-allocated bundle recorded under its own key there, no range of any other
bundle in any map, and every valid entry owned by a range of a bundle allocated to that
register. -/
structure LooseOccupancy (s : Env) : Prop where
  sorted : ∀ p, Sorted (s.pregs p).allocations
  recorded : ∀ b p, (s.bundles b).allocation = .reg p → ∀ entry ∈ (s.bundles b).ranges,
    (LiveRangeKey.fromRange entry.range, some entry.index) ∈ (s.pregs p).allocations
  unrecorded : ∀ b, (∀ p, (s.bundles b).allocation ≠ .reg p) → ∀ entry ∈ (s.bundles b).ranges,
    ∀ p, ∀ e ∈ (s.pregs p).allocations, e.2 ≠ some entry.index
  owned : ∀ p, ∀ e ∈ (s.pregs p).allocations, ∀ lr, e.2 = some lr →
    (s.bundles (s.ranges lr).bundle).allocation = .reg p ∧
    ∃ entry ∈ (s.bundles (s.ranges lr).bundle).ranges, entry.index = lr

/-- The same with a stale entry `[4, 8) ↦ 0` left in PReg 0 beside bundle 0's own. -/
def staleExample : Env :=
  { probeExample with
    pregs := fun p => ⟨if p = 0 then [(⟨0, 4⟩, some 0), (⟨4, 8⟩, some 0)] else [], false⟩ }

theorem staleExample_looseOccupancy : LooseOccupancy staleExample where
  sorted p := by by_cases zero : p = 0 <;> simp [staleExample, zero] <;> decide
  recorded b p allocated entry member := by
    by_cases zero : b = 0
    · subst zero
      simp only [staleExample, probeExample, if_true, Allocation.reg.injEq] at allocated
      subst allocated
      simp only [staleExample, probeExample, List.mem_singleton] at member
      subst member
      decide
    · simp [staleExample, probeExample, zero] at allocated
  unrecorded b unallocated entry member p e inMap := by
    have nonzero : b ≠ 0 := fun zero => unallocated 0 (by simp [staleExample, probeExample, zero])
    simp only [staleExample, probeExample, List.mem_singleton] at member
    subst member
    by_cases zero : p = 0
    · simp only [staleExample, zero, if_true, List.mem_cons, List.mem_singleton,
        List.not_mem_nil, or_false] at inMap
      rcases inMap with rfl | rfl <;> simpa using Ne.symm nonzero
    · simp [staleExample, zero] at inMap
  owned p e member lr valid := by
    by_cases zero : p = 0
    · simp only [staleExample, zero, if_true, List.mem_cons, List.mem_singleton,
        List.not_mem_nil, or_false] at member
      subst zero
      rcases member with rfl | rfl <;> cases valid <;>
        exact ⟨rfl, _, List.mem_singleton_self _, rfl⟩
    · simp [staleExample, zero] at member

theorem staleExample_retry_splits :
    LooseOccupancy staleExample ∧ RangesSorted (staleExample.bundles 1).ranges ∧
      (staleExample.bundles 1).ranges ≠ [] ∧ (staleExample.bundles 1).allocation = .none ∧
      processAttempt probeCtx scanLimitCost staleExample 1 0 99 .register 1 = .ok (.evict [0]) ∧
      (∃ best, probeRegs probeCtx scanLimitCost (evictAll probeCtx staleExample [0]) 1 [0]
        (ProbeBest.initial probeCtx) = .ok (.exhausted best)) ∧
      ∃ s', attemptLoop probeCtx scanLimitCost 1 0 99 .register 2 0 staleExample = .ok s' ∧
        (s'.bundles 1).allocation = .none :=
  ⟨staleExample_looseOccupancy, by decide, by decide, rfl, rfl, ⟨_, rfl⟩, _, rfl, rfl⟩

end IonRegalloc
