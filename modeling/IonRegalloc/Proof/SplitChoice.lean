import IonRegalloc.Proof.SplitPoint
import IonRegalloc.Proof.Decision

/-! Where `process_bundle` splits a bundle (lines 1018-1051): the chosen point lies inside the
bundle, and the loop hoist never moves it before the bundle start. -/

namespace IonRegalloc

/-- The CFG facts the hoist reads: blocks follow the instruction order, and each block up to
that of any instruction has a first instruction, whose Before point is the block's entry. -/
structure CfgWellFormed (ctx : Ctx) : Prop where
  monotone : ∀ i j, i ≤ j → ctx.insnBlock i ≤ ctx.insnBlock j
  entry : ∀ i, ∀ block ≤ ctx.insnBlock i, ∃ first, ctx.insnBlock first = block ∧
    (∀ j, ctx.insnBlock j = block → first ≤ j) ∧ ctx.blockEntry block = ProgPoint.before first

theorem hoistSplitPoint_between {ctx : Ctx} (cfg : CfgWellFormed ctx) {bundleStart splitAt : Nat}
    (le : bundleStart ≤ splitAt) :
    bundleStart ≤ hoistSplitPoint ctx bundleStart splitAt ∧
      hoistSplitPoint ctx bundleStart splitAt ≤ splitAt := by
  simp only [hoistSplitPoint]
  split
  · split
    · rename_i block found
      have scanned := List.mem_range'_1.1 (List.mem_of_find?_eq_some found)
      obtain ⟨first, inBlock, least, entry⟩ := cfg.entry (ProgPoint.inst splitAt) block (by omega)
      have after : ProgPoint.inst bundleStart < first := by
        by_contra! notAfter
        have := cfg.monotone _ _ notAfter
        omega
      have upTo : first ≤ ProgPoint.inst splitAt := by
        by_contra! notUpTo
        have := cfg.monotone _ _ notUpTo.le
        exact absurd (least (ProgPoint.inst splitAt) (by omega)) (by omega)
      simp only [entry, ProgPoint.before_eq]
      simp only [ProgPoint.inst_eq] at after upTo
      omega
    · exact ⟨le, le_rfl⟩
  · exact ⟨le, le_rfl⟩

/-- A recorded first conflict lies before `bound`. -/
def ConflictScan.FirstBelow (bound : Nat) (scan : ConflictScan) : Prop :=
  ∀ point ∈ scan.firstConflict, point < bound

/-- A reported conflict point lies before `bound`. -/
def AllocRegResult.PointBelow (bound : Nat) : AllocRegResult → Prop
  | .conflict _ point | .conflictWithFixed _ point => point < bound
  | _ => True

def AllocLoopExit.Below (bound : Nat) : AllocLoopExit → Prop
  | .breakAlloc _ scan | .breakRanges scan => scan.FirstBelow bound
  | .early result => result.PointBelow bound
  | .diverge => True

def ScanExit.Below (bound : Nat) : ScanExit → Prop
  | .finished scan => scan.FirstBelow bound
  | .early result => result.PointBelow bound
  | .diverge => True

section Scan

variable {s : Env} {reg : Nat} {c : Option Nat} {bound : Nat}

theorem ConflictScan.FirstBelow.noteFirst {scan : ConflictScan} {pregKey key : LiveRangeKey}
    (below : scan.FirstBelow bound) (overlap : pregKey.Overlaps key) (nonempty : key.from < key.to)
    (le : key.to ≤ bound) : (scan.noteFirst pregKey key).FirstBelow bound := by
  have := overlap.2
  intro point
  cases first : scan.firstConflict with
  | none => simp [first]; omega
  | some _ => simpa [first] using below _

theorem recordConflict_below {scan : ConflictScan} {key pregKey : LiveRangeKey} {lr : Option Nat}
    {out : Except AllocRegResult ConflictScan} (below : scan.FirstBelow bound)
    (overlap : pregKey.Overlaps key) (nonempty : key.from < key.to) (le : key.to ≤ bound)
    (recorded : recordConflict s c key pregKey lr scan = out) :
    match out with
    | .ok scan => scan.FirstBelow bound
    | .error result => result.PointBelow bound := by
  cases lr with
  | none =>
    simp only [recordConflict] at recorded
    subst recorded
    exact Nat.lt_of_lt_of_le overlap.2 le
  | some lr =>
    simp only [recordConflict] at recorded
    split_ifs at recorded <;> subst recorded
    · exact below.noteFirst overlap nonempty le
    · trivial
    · exact ConflictScan.FirstBelow.noteFirst below overlap nonempty le

theorem allocLoop_below {range : CodeRange} (nonempty : range.from < range.to)
    (le : range.to ≤ bound) :
    ∀ (fuel : Nat) (iter : AllocMap) (skips : Nat) (scan : ConflictScan), scan.FirstBelow bound →
      (allocLoop s reg c range fuel iter skips scan).Below bound
  | 0, _, _, _, _ => trivial
  | _ + 1, [], _, _, below => below
  | fuel + 1, (pregKey, lr) :: rest, skips, scan, below => by
    simp only [allocLoop]
    split
    · split <;> exact allocLoop_below nonempty le fuel _ _ _ below
    · split
      · exact below
      · rename_i notLt notGt
        have overlap : pregKey.Overlaps (LiveRangeKey.fromRange range) :=
          (LiveRangeKey.cmp_eq_eq_iff _ _).1 (by revert notLt notGt; cases pregKey.cmp _ <;> simp)
        split <;> rename_i found
        · exact recordConflict_below below overlap nonempty le found
        · exact allocLoop_below nonempty le fuel _ _ _
            (recordConflict_below below overlap nonempty le found)

theorem rangesLoop_below (fuel : Nat) : ∀ (ranges : List LiveRangeListEntry) (iter : AllocMap)
    (scan : ConflictScan) {exit : ScanExit},
    (∀ entry ∈ ranges, entry.range.from < entry.range.to ∧ entry.range.to ≤ bound) →
    scan.FirstBelow bound → rangesLoop s reg c fuel ranges iter scan = exit → exit.Below bound
  | [], _, _, _, _, below, run => by cases run; exact below
  | entry :: rest, iter, scan, _, inside, below, run => by
    obtain ⟨nonempty, le⟩ := inside entry (List.mem_cons_self _ _)
    have step : (allocLoop s reg c entry.range fuel iter 0 scan).Below bound :=
      allocLoop_below nonempty le fuel iter 0 scan below
    simp only [rangesLoop] at run
    split at run <;> rename_i exit <;> rw [exit] at step <;> subst run
    · exact rangesLoop_below fuel rest _ _ (fun e member => inside e (List.mem_cons_of_mem _ member))
        step rfl
    · exact step
    · exact step
    · trivial

theorem tryToAllocateBundleToReg_below {bundle : Nat} {result : AllocRegResult} {s' : Env}
    (inside : ∀ entry ∈ (s.bundles bundle).ranges, entry.range.from < entry.range.to ∧
      entry.range.to ≤ bound)
    (probe : tryToAllocateBundleToReg s bundle reg c = .ok (result, s')) : result.PointBelow bound := by
  simp only [tryToAllocateBundleToReg] at probe
  split at probe
  · cases probe
  split at probe <;> rename_i exit <;>
    have scan := rangesLoop_below _ _ _ _ inside (fun _ none => by cases none) exit
  · cases probe
  · cases probe; exact scan
  · unfold concludeScan at probe
    split at probe
    · split at probe
      · cases probe; exact scan _ ‹_›
      · cases probe
    · cases probe; trivial

end Scan

namespace ProbeBest

variable {ctx : Ctx} {s : Env} {best : ProbeBest} {preg bound : Nat}

theorem noteSplit_splitPoint_below {cost point : Nat} (kept : best.splitPoint < bound)
    (below : point < bound) : (best.noteSplit preg cost point).splitPoint < bound := by
  unfold noteSplit; split <;> assumption

theorem noteResult_splitPoint_below {result : AllocRegResult} (kept : best.splitPoint < bound)
    (below : result.PointBelow bound) : (best.noteResult ctx s preg result).splitPoint < bound := by
  cases result with
  | conflict bundles point =>
    simp only [noteResult, noteConflict]
    split <;> exact noteSplit_splitPoint_below kept below
  | conflictWithFixed maxCost point => exact noteSplit_splitPoint_below kept below
  | _ => exact kept

end ProbeBest

theorem probeRegs_splitPoint_below {ctx : Ctx} {limit : Option Nat → Option Nat → Option Nat}
    {s : Env} {bundle bound : Nat} {best' : ProbeBest}
    (inside : ∀ entry ∈ (s.bundles bundle).ranges, entry.range.from < entry.range.to ∧
      entry.range.to ≤ bound) :
    ∀ (pregs : List Nat) (best : ProbeBest), best.splitPoint < bound →
      probeRegs ctx limit s bundle pregs best = .ok (.exhausted best') → best'.splitPoint < bound
  | [], best, kept, probed => by cases probed; exact kept
  | preg :: rest, best, kept, probed => by
    simp only [probeRegs] at probed
    split at probed
    · cases probed
    · cases probed
    · exact probeRegs_splitPoint_below inside rest _
        (best.noteResult_splitPoint_below kept (tryToAllocateBundleToReg_below inside ‹_›)) probed

/-- On the split branch of a non-minimal bundle, `process_bundle` splits at the lowest-cost
conflict point raised to the bundle start and hoisted out of deeper loops, and that point lies
in `[bundle_start, bundle_end)`. -/
theorem decideAfterProbe_splits_inside {ctx : Ctx} {limit : Option Nat → Option Nat → Option Nat}
    {s : Env} {bundle regClass attempts : Nat} {req : Requirement} {pregs : List Nat}
    {best : ProbeBest} {firstEntry lastEntry : LiveRangeListEntry}
    (cfg : CfgWellFormed ctx) (sorted : RangesSorted (s.bundles bundle).ranges)
    (first : (s.bundles bundle).ranges.head? = some firstEntry)
    (last : (s.bundles bundle).ranges.getLast? = some lastEntry)
    (probed : probeRegs ctx limit s bundle pregs (ProbeBest.initial ctx) = .ok (.exhausted best))
    (nonMinimal : minimalBundle s bundle = false)
    (splitBranch : 2 ≤ attempts ∨ best.evictCost = none ∨
      bundleSpillWeight s bundle ≤ best.evictCost.getD 0) :
    let splitAt := hoistSplitPoint ctx firstEntry.range.from (max best.splitPoint firstEntry.range.from)
    firstEntry.range.from ≤ splitAt ∧ splitAt < lastEntry.range.to ∧
      decideAfterProbe ctx s bundle regClass req attempts best =
        (splitAndRequeueBundle ctx s bundle splitAt best.splitReg).map .done := by
  obtain ⟨head, rest, ranges⟩ : ∃ head rest, (s.bundles bundle).ranges = head :: rest := by
    cases h : (s.bundles bundle).ranges with
    | nil => simp [h] at first
    | cons head rest => exact ⟨head, rest, rfl⟩
  obtain rfl : head = firstEntry := by simpa [ranges] using first
  have nonempty : (s.bundles bundle).ranges ≠ [] := by simp [ranges]
  obtain rfl : (s.bundles bundle).ranges.getLast nonempty = lastEntry := by
    simpa [List.getLast?_eq_getLast _ nonempty] using last
  have inside : ∀ entry ∈ (s.bundles bundle).ranges, entry.range.from < entry.range.to ∧
      entry.range.to ≤ ((s.bundles bundle).ranges.getLast nonempty).range.to := fun _ member =>
    ⟨by simpa [LiveRangeKey.fromRange] using KeysSorted.nonempty sorted _ member,
      sorted.le_getLast nonempty member⟩
  have firstBelow := inside head (by simp [ranges])
  have kept := probeRegs_splitPoint_below inside pregs _ (by simp [ProbeBest.initial]; omega) probed
  obtain ⟨lower, upper⟩ := hoistSplitPoint_between cfg
    (le_max_right best.splitPoint head.range.from)
  dsimp only
  refine ⟨lower, by omega, ?_⟩
  simp only [decideAfterProbe]
  rw [if_neg (by simp [nonMinimal]), if_pos ⟨by simp [nonMinimal], splitBranch⟩]
  simp only [ranges, List.head?_cons]
  cases splitAndRequeueBundle ctx s bundle _ best.splitReg <;> rfl

theorem probeCtx_cfgWellFormed : CfgWellFormed probeCtx where
  monotone _ _ _ := le_rfl
  entry _ _ inBlock := ⟨0, (Nat.le_zero.1 inBlock).symm, fun _ _ => Nat.zero_le _, rfl⟩

theorem fixedCtx_cfgWellFormed : CfgWellFormed fixedCtx where
  monotone _ _ _ := le_rfl
  entry _ _ inBlock := ⟨0, (Nat.le_zero.1 inBlock).symm, fun _ _ => Nat.zero_le _, rfl⟩

/-- Bundle 1 of the probe example, on a second attempt: the probe's conflict at point 2 is
where the bundle starts, and the split lands there. -/
theorem probeExample_splits_inside :
    let best : ProbeBest := ⟨some [0], some 10, some 11, 2, 0⟩
    let splitAt := hoistSplitPoint probeCtx 2 (max best.splitPoint 2)
    2 ≤ splitAt ∧ splitAt < 6 ∧
      decideAfterProbe probeCtx probeExample 1 0 .register 2 best =
        (splitAndRequeueBundle probeCtx probeExample 1 splitAt best.splitReg).map .done :=
  @decideAfterProbe_splits_inside probeCtx scanLimitCost probeExample 1 0 2 .register [0] _ _ _
    probeCtx_cfgWellFormed (by decide) rfl rfl rfl rfl (.inl le_rfl)

end IonRegalloc
