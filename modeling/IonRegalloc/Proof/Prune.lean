import IonRegalloc.Proof.Evict

/-! Cost pruning in the probe loop is a pure optimisation, as long as `conflict_cost + move_cost`
does not wrap. -/

namespace IonRegalloc

open AllocMap

/-- The probe loop without pruning: `max_allowable_cost` is always `None`. -/
def noScanLimit : Option Nat → Option Nat → Option Nat := fun _ _ => none

/-- The scan's accumulators agree: the weight is the conflicts' largest, and a first conflict
is noted once there is a conflict. -/
structure ConflictScan.Consistent (s : Env) (scan : ConflictScan) : Prop where
  weight : scan.maxConflictWeight = maximumSpillWeightInBundleSet s scan.conflicts
  noted : scan.conflicts ≠ [] → scan.firstConflict.isSome

/-- What an unpruned scan reports: a scan of weight at least `floor` with its accumulators in
agreement, or a fixed conflict costing at least `floor`, the largest weight of a set. -/
def ReportsAtLeast (s : Env) (floor : Nat) : Except AllocRegResult ConflictScan → Prop
  | .ok scan => floor ≤ scan.maxConflictWeight ∧ scan.Consistent s
  | .error (.conflictWithFixed cost _) =>
    floor ≤ cost ∧ ∃ bundles, cost = maximumSpillWeightInBundleSet s bundles
  | .error _ => False

/-- What the unpruned probe reports where the pruned one stopped early under the limit `limit`:
a conflict costing more than it. -/
def CostsMoreThan (s : Env) (limit : Nat) : Except Abort (AllocRegResult × Env) → Prop
  | .ok (.conflict bundles _, _) => limit < maximumSpillWeightInBundleSet s bundles
  | .ok (.conflictWithFixed cost _, _) =>
    limit < cost ∧ ∃ bundles, cost = maximumSpillWeightInBundleSet s bundles
  | _ => False

section Scan

variable {s : Env}

theorem ConflictScan.consistent_initial : (⟨[], 0, none⟩ : ConflictScan).Consistent s :=
  ⟨rfl, fun empty => absurd rfl empty⟩

theorem ReportsAtLeast.mono {floor floor' : Nat} {r : Except AllocRegResult ConflictScan}
    (reports : ReportsAtLeast s floor r) (le : floor' ≤ floor) : ReportsAtLeast s floor' r := by
  cases r with
  | ok scan => exact ⟨le.trans reports.1, reports.2⟩
  | error result =>
    cases result with
    | conflictWithFixed cost point => exact ⟨le.trans reports.1, reports.2⟩
    | _ => exact reports

theorem recordConflict_fresh {c : Option Nat} {key pregKey : LiveRangeKey} {lr : Nat}
    {scan : ConflictScan} (fresh : (s.ranges lr).bundle ∉ scan.conflicts) :
    recordConflict s c key pregKey (some lr) scan =
      if exceedsCost c (max scan.maxConflictWeight (s.bundles (s.ranges lr).bundle).spillWeight)
      then .error .conflictHighCost
      else .ok ({ scan with conflicts := scan.conflicts ++ [(s.ranges lr).bundle],
                            maxConflictWeight := max scan.maxConflictWeight
                              (s.bundles (s.ranges lr).bundle).spillWeight }.noteFirst pregKey key) := by
  simp [recordConflict, fresh]

theorem recordConflict_known {c : Option Nat} {key pregKey : LiveRangeKey} {lr : Nat}
    {scan : ConflictScan} (known : (s.ranges lr).bundle ∈ scan.conflicts) :
    recordConflict s c key pregKey (some lr) scan = .ok (scan.noteFirst pregKey key) := by
  simp [recordConflict, known]

theorem ConflictScan.Consistent.add {scan : ConflictScan} (consistent : scan.Consistent s)
    (b : Nat) (pregKey key : LiveRangeKey) :
    ({ scan with conflicts := scan.conflicts ++ [b],
                 maxConflictWeight := max scan.maxConflictWeight (s.bundles b).spillWeight }.noteFirst
        pregKey key).Consistent s :=
  ⟨by simp [consistent.weight], fun _ => by simp⟩

theorem ConflictScan.Consistent.noteFirst {scan : ConflictScan} (consistent : scan.Consistent s)
    (pregKey key : LiveRangeKey) : (scan.noteFirst pregKey key).Consistent s :=
  ⟨by simpa using consistent.weight, fun _ => by simp⟩

/-- Without a limit the scan only raises its weight, and reports a cost that is a set's
largest weight. -/
theorem recordAll_none_reports : ∀ (visits : List (LiveRangeKey × (LiveRangeKey × Option Nat)))
    (scan : ConflictScan), scan.Consistent s →
      ReportsAtLeast s scan.maxConflictWeight (recordAll s none visits scan)
  | [], scan, consistent => ⟨le_rfl, consistent⟩
  | (_, _, none) :: _, scan, consistent => ⟨le_rfl, scan.conflicts, consistent.weight⟩
  | (key, pregKey, some lr) :: rest, scan, consistent => by
    by_cases known : (s.ranges lr).bundle ∈ scan.conflicts
    · simpa [recordAll, recordConflict_known known] using
        recordAll_none_reports rest _ (consistent.noteFirst pregKey key)
    · simp only [recordAll, recordConflict_fresh known, exceedsCost, if_false]
      exact (recordAll_none_reports rest _ (consistent.add _ pregKey key)).mono (by simp)

/-- Under the limit `limit` the scan agrees with the unpruned one, or stops with
`ConflictHighCost` where the unpruned one reports a cost above the limit. -/
theorem recordAll_limit (limit : Nat) :
    ∀ (visits : List (LiveRangeKey × (LiveRangeKey × Option Nat))) (scan : ConflictScan),
      scan.Consistent s → scan.maxConflictWeight ≤ limit →
      recordAll s (some limit) visits scan = recordAll s none visits scan ∨
      (recordAll s (some limit) visits scan = .error .conflictHighCost ∧
        ReportsAtLeast s (limit + 1) (recordAll s none visits scan))
  | [], _, _, _ => .inl rfl
  | (_, _, none) :: _, _, _, _ => .inl rfl
  | (key, pregKey, some lr) :: rest, scan, consistent, within => by
    by_cases known : (s.ranges lr).bundle ∈ scan.conflicts
    · simpa [recordAll, recordConflict_known known] using
        recordAll_limit limit rest _ (consistent.noteFirst pregKey key) (by simpa using within)
    · simp only [recordAll, recordConflict_fresh known, exceedsCost, if_false]
      by_cases high : limit < max scan.maxConflictWeight (s.bundles (s.ranges lr).bundle).spillWeight
      · right
        simp only [high, decide_True, if_true]
        exact ⟨rfl, (recordAll_none_reports rest _ (consistent.add _ pregKey key)).mono
          (by simpa using high)⟩
      · simp only [high, decide_False, if_false]
        exact recordAll_limit limit rest _ (consistent.add _ pregKey key)
          (by simpa using Nat.le_of_not_lt high)

end Scan

/-- A probe under the limit `limit` agrees with the unpruned one, or stops with
`ConflictHighCost` where the unpruned one reports a conflict costing more than the limit. -/
theorem tryToAllocateBundleToReg_limit {s : Env} {bundle reg : Nat} (limit : Nat)
    (sorted : Sorted (s.pregs reg).allocations)
    (sortedByStart : (s.bundles bundle).ranges.Pairwise fun a b => a.range.from ≤ b.range.from)
    (nonempty : (s.bundles bundle).ranges ≠ []) :
    tryToAllocateBundleToReg s bundle reg (some limit) = tryToAllocateBundleToReg s bundle reg none ∨
    (tryToAllocateBundleToReg s bundle reg (some limit) = .ok (.conflictHighCost, s) ∧
      CostsMoreThan s limit (tryToAllocateBundleToReg s bundle reg none)) := by
  rw [tryToAllocateBundleToReg_eq_recordAll _ sorted sortedByStart nonempty,
    tryToAllocateBundleToReg_eq_recordAll _ sorted sortedByStart nonempty]
  rcases recordAll_limit limit (hitPairs (s.bundles bundle).ranges (s.pregs reg).allocations)
      ⟨[], 0, none⟩ ConflictScan.consistent_initial (Nat.zero_le _) with same | ⟨stopped, reports⟩
  · exact .inl (by rw [same])
  · refine .inr ⟨by rw [stopped], ?_⟩
    revert reports
    cases recordAll s none (hitPairs (s.bundles bundle).ranges (s.pregs reg).allocations)
      ⟨[], 0, none⟩ with
    | ok scan =>
      rintro ⟨above, consistent⟩
      have found : scan.conflicts ≠ [] := fun empty => by
        have := consistent.weight; simp [empty, maximumSpillWeightInBundleSet] at this; omega
      obtain ⟨point, noted⟩ := Option.isSome_iff_exists.mp (consistent.noted found)
      simp only [concludeScan, List.length_pos.mpr found, if_true, noted, CostsMoreThan]
      have := consistent.weight
      omega
    | error result =>
      cases result with
      | conflictWithFixed cost point =>
        rintro ⟨above, set, rfl⟩
        exact ⟨by omega, set, rfl⟩
      | _ => simp [ReportsAtLeast]

namespace ProbeBest

variable {ctx : Ctx} {s : Env} {best : ProbeBest} {preg point : Nat}

theorem noteConflict_of_costly {a b : Nat} {bundles : List Nat}
    (evictCost : best.evictCost = some a) (splitCost : best.splitCost = some b)
    (costly : max a b < maximumSpillWeightInBundleSet s bundles)
    (noWrap : maximumSpillWeightInBundleSet s bundles + moveCostAt ctx point ≤ u32Max) :
    best.noteConflict ctx s preg bundles point = best := by
  have unwrapped : u32Add (maximumSpillWeightInBundleSet s bundles) (moveCostAt ctx point) =
      maximumSpillWeightInBundleSet s bundles + moveCostAt ctx point :=
    Nat.mod_eq_of_lt (by unfold u32Max at noWrap ⊢; omega)
  have notEvict : ¬ maximumSpillWeightInBundleSet s bundles < a := by omega
  have notSplit : ¬ maximumSpillWeightInBundleSet s bundles + moveCostAt ctx point < b := by omega
  simp [noteConflict, noteSplit, lowerCost, evictCost, splitCost, unwrapped, notEvict, notSplit]

theorem noteFixedConflict_of_costly {b cost : Nat} (splitCost : best.splitCost = some b)
    (costly : b < cost) (noWrap : cost + moveCostAt ctx point ≤ u32Max) :
    best.noteFixedConflict ctx preg cost point = best := by
  have unwrapped : u32Add cost (moveCostAt ctx point) = cost + moveCostAt ctx point :=
    Nat.mod_eq_of_lt (by unfold u32Max at noWrap ⊢; omega)
  have notSplit : ¬ cost + moveCostAt ctx point < b := by omega
  simp [noteFixedConflict, noteSplit, lowerCost, splitCost, unwrapped, notSplit]

end ProbeBest

section Loop

variable {ctx : Ctx} {s : Env} {bundle : Nat}

theorem probeRegs_scanLimitCost_eq (sorted : ∀ p, Sorted (s.pregs p).allocations)
    (sortedByStart : (s.bundles bundle).ranges.Pairwise fun a b => a.range.from ≤ b.range.from)
    (nonempty : (s.bundles bundle).ranges ≠ [])
    (noWrap : ∀ bundles point, maximumSpillWeightInBundleSet s bundles + moveCostAt ctx point ≤ u32Max) :
    ∀ (pregs : List Nat) (best : ProbeBest),
      probeRegs ctx scanLimitCost s bundle pregs best = probeRegs ctx noScanLimit s bundle pregs best
  | [], _ => rfl
  | preg :: rest, best => by
    have ih := probeRegs_scanLimitCost_eq sorted sortedByStart nonempty noWrap rest
    have sameNext : ∀ r : Except Abort (AllocRegResult × Env),
        (match r with
          | .error e => Except.error e
          | .ok (.allocated alloc, s') => Except.ok (ProbeExit.allocated alloc s')
          | .ok (result, _) => probeRegs ctx scanLimitCost s bundle rest
              (best.noteResult ctx s preg result)) =
        (match r with
          | .error e => Except.error e
          | .ok (.allocated alloc, s') => Except.ok (ProbeExit.allocated alloc s')
          | .ok (result, _) => probeRegs ctx noScanLimit s bundle rest
              (best.noteResult ctx s preg result)) := by
      rintro (e | ⟨result, s'⟩)
      · rfl
      · cases result <;> simp only [ih]
    simp only [probeRegs]
    cases limited : scanLimitCost best.evictCost best.splitCost with
    | none => exact sameNext _
    | some limit =>
      obtain ⟨a, b, evictCost, splitCost, rfl⟩ : ∃ a b, best.evictCost = some a ∧
          best.splitCost = some b ∧ limit = max a b := by
        cases evict : best.evictCost <;> cases split : best.splitCost <;>
          simp [scanLimitCost, evict, split] at limited
        exact ⟨_, _, rfl, rfl, limited.symm⟩
      rcases tryToAllocateBundleToReg_limit (max a b) (sorted preg) sortedByStart nonempty with
        same | ⟨stopped, costly⟩
      · rw [same]; exact sameNext _
      · rw [stopped]
        simp only [noScanLimit, ProbeBest.noteResult, ih]
        revert costly
        rcases tryToAllocateBundleToReg s bundle preg none with e | ⟨result, s'⟩
        · simp [CostsMoreThan]
        · cases result with
          | conflict bundles point =>
            intro costly
            simp only [ProbeBest.noteResult,
              ProbeBest.noteConflict_of_costly evictCost splitCost costly (noWrap bundles point)]
          | conflictWithFixed cost point =>
            rintro ⟨costly, set, rfl⟩
            simp only [ProbeBest.noteResult,
              ProbeBest.noteFixedConflict_of_costly splitCost (by omega) (noWrap set point)]
          | _ => simp [CostsMoreThan]

end Loop

theorem maximumSpillWeightInBundleSet_of_weights {s s' : Env}
    (same : ∀ b, (s'.bundles b).spillWeight = (s.bundles b).spillWeight) (bundles : List Nat) :
    maximumSpillWeightInBundleSet s' bundles = maximumSpillWeightInBundleSet s bundles := by
  simp [maximumSpillWeightInBundleSet, same]

/-- What pruning needs of the state an attempt starts in. -/
structure PruneReady (ctx : Ctx) (s : Env) (bundle : Nat) : Prop where
  sorted : ∀ p, Sorted (s.pregs p).allocations
  sortedByStart : (s.bundles bundle).ranges.Pairwise fun a b => a.range.from ≤ b.range.from
  nonempty : (s.bundles bundle).ranges ≠ []
  noWrap : ∀ bundles point, maximumSpillWeightInBundleSet s bundles + moveCostAt ctx point ≤ u32Max

section Attempts

variable {ctx : Ctx} {bundle : Nat}

theorem PruneReady.evictAll {s : Env} (ready : PruneReady ctx s bundle) (bundles : List Nat) :
    PruneReady ctx (IonRegalloc.evictAll ctx s bundles) bundle := by
  have sameBundle := evictAll_bundles ctx s bundles
  have weights : ∀ b, ((IonRegalloc.evictAll ctx s bundles).bundles b).spillWeight =
      (s.bundles b).spillWeight := fun b => by
    obtain ⟨alloc, evicted⟩ := sameBundle b; rw [evicted]
  obtain ⟨alloc, evicted⟩ := sameBundle bundle
  exact ⟨fun p => (ready.sorted p).sublist (evictAll_allocations_sublist s bundles p),
    by simpa [evicted] using ready.sortedByStart, by simpa [evicted] using ready.nonempty,
    fun set point => by rw [maximumSpillWeightInBundleSet_of_weights weights]; exact ready.noWrap set point⟩

theorem processAttempt_scanLimitCost_eq {s : Env} (ready : PruneReady ctx s bundle)
    (regClass hintReg : Nat) (req : Requirement) (attempts : Nat) :
    processAttempt ctx scanLimitCost s bundle regClass hintReg req attempts =
      processAttempt ctx noScanLimit s bundle regClass hintReg req attempts := by
  have probe : ∀ fixedPreg,
      probeAndDecide ctx scanLimitCost s bundle regClass hintReg req attempts fixedPreg =
        probeAndDecide ctx noScanLimit s bundle regClass hintReg req attempts fixedPreg :=
    fun _ => by
      simp only [probeAndDecide, probeRegs_scanLimitCost_eq ready.sorted ready.sortedByStart
        ready.nonempty ready.noWrap]
  cases req <;> simp only [processAttempt, probe]

theorem attemptLoop_scanLimitCost_eq (regClass hintReg : Nat) (req : Requirement) :
    ∀ (fuel attempts : Nat) (s : Env), PruneReady ctx s bundle →
      attemptLoop ctx scanLimitCost bundle regClass hintReg req fuel attempts s =
        attemptLoop ctx noScanLimit bundle regClass hintReg req fuel attempts s
  | 0, _, _, _ => rfl
  | fuel + 1, attempts, s, ready => by
    simp only [attemptLoop, processAttempt_scanLimitCost_eq ready]
    cases processAttempt ctx noScanLimit s bundle regClass hintReg req (attempts + 1) with
    | error e => rfl
    | ok result =>
      cases result with
      | done s' => rfl
      | evict bundles =>
        exact attemptLoop_scanLimitCost_eq regClass hintReg req fuel (attempts + 1) _
          (ready.evictAll bundles)

end Attempts

theorem processBundle_eq_unpruned {ctx : Ctx} {s : Env} {bundle : Nat}
    (sorted : ∀ p, Sorted (s.pregs p).allocations)
    (sortedByStart : (s.bundles bundle).ranges.Pairwise fun a b => a.range.from ≤ b.range.from)
    (nonempty : (s.bundles bundle).ranges ≠ [])
    (noWrap : ∀ bundles point,
      maximumSpillWeightInBundleSet s bundles + moveCostAt ctx point ≤ u32Max) :
    (∀ regClass hintReg req attempts,
      processAttempt ctx scanLimitCost s bundle regClass hintReg req attempts =
        processAttempt ctx noScanLimit s bundle regClass hintReg req attempts) ∧
    ∀ regHint, processBundle ctx s bundle regHint = processBundleWith ctx noScanLimit s bundle regHint := by
  have ready : PruneReady ctx s bundle := ⟨sorted, sortedByStart, nonempty, noWrap⟩
  refine ⟨processAttempt_scanLimitCost_eq ready, fun regHint => ?_⟩
  have loop := fun regClass hintReg req => attemptLoop_scanLimitCost_eq regClass hintReg req 2 0 s ready
  simp only [processBundle, processBundleWith, loop]

/-- The probe example with a second register, PReg 1, held over bundle 1's points by a bundle
far heavier than bundle 0. -/
def pruneExample : Env :=
  { probeExample with
    numRanges := 3
    bundles := fun b => match b with
      | 0 => ⟨[⟨⟨0, 4⟩, 0⟩], 0, .reg 0, 4, 10, false, false, false⟩
      | 1 => ⟨[⟨⟨2, 6⟩, 1⟩], 1, .none, 4, 20, false, false, false⟩
      | _ => ⟨[⟨⟨2, 6⟩, 2⟩], 2, .reg 1, 4, 900, false, false, false⟩
    numBundles := 3
    pregs := fun p => match p with
      | 0 => ⟨[(⟨0, 4⟩, some 0)], false⟩
      | 1 => ⟨[(⟨2, 6⟩, some 2)], false⟩
      | _ => ⟨[], false⟩ }

/-- PReg 0's conflict with bundle 0 sets both costs, to 10 and 11; PReg 1's occupant weighs more,
so the limited probe stops on it with `ConflictHighCost` where the unlimited one reports it. -/
theorem pruneExample_eq_unpruned :
    (∀ p, Sorted (pruneExample.pregs p).allocations) ∧
      (pruneExample.bundles 1).ranges.Pairwise (fun a b => a.range.from ≤ b.range.from) ∧
      (pruneExample.bundles 1).ranges ≠ [] ∧
      (∀ bundles point,
        maximumSpillWeightInBundleSet pruneExample bundles + moveCostAt fixedCtx point ≤ u32Max) ∧
      tryToAllocateBundleToReg pruneExample 1 0 none = .ok (.conflict [0] 2, pruneExample) ∧
      tryToAllocateBundleToReg pruneExample 1 1 (scanLimitCost (some 10) (some 11)) =
        .ok (.conflictHighCost, pruneExample) ∧
      tryToAllocateBundleToReg pruneExample 1 1 none = .ok (.conflict [2] 2, pruneExample) ∧
      ((∀ regClass hintReg req attempts,
        processAttempt fixedCtx scanLimitCost pruneExample 1 regClass hintReg req attempts =
          processAttempt fixedCtx noScanLimit pruneExample 1 regClass hintReg req attempts) ∧
      ∀ regHint, processBundle fixedCtx pruneExample 1 regHint =
        processBundleWith fixedCtx noScanLimit pruneExample 1 regHint) := by
  have sorted : ∀ p, Sorted (pruneExample.pregs p).allocations
    | 0 | 1 => by decide
    | _ + 2 => KeysSorted.nil
  have noWrap : ∀ bundles point,
      maximumSpillWeightInBundleSet pruneExample bundles + moveCostAt fixedCtx point ≤ u32Max :=
    fun bundles point => by
      have : maximumSpillWeightInBundleSet pruneExample bundles ≤ 900 :=
        maximumSpillWeightInBundleSet_le_iff.mpr fun b _ => by
          match b with
          | 0 | 1 | _ + 2 => simp [pruneExample]
      simp only [moveCostAt, fixedCtx, probeCtx, u32Max]; omega
  exact ⟨sorted, by decide, by decide, noWrap, rfl, rfl, rfl,
    processBundle_eq_unpruned sorted (by decide) (by decide) noWrap⟩

end IonRegalloc
