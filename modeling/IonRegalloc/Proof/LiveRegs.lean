import IonRegalloc.Proof.Retry

/-! The too-many-live-registers check (lines 948-1003). Past point 0 it counts exactly; at point 0
its start key wraps to `u32::MAX`, it counts nothing, and a saturated class panics instead. -/

namespace IonRegalloc

open AllocMap

/-- An entry the check means to count: a fixed reservation or an entry of a minimal bundle,
overlapping `range`. -/
def liveOccupant (s : Env) (range : CodeRange) (entry : LiveRangeKey × Option Nat) : Bool :=
  decide (entry.1.Overlaps (LiveRangeKey.fromRange range)) &&
    match entry.2 with
    | some lr => minimalBundle s (s.ranges lr).bundle
    | none => true

def occupantsOf (s : Env) (range : CodeRange) (preg : Nat) : Nat :=
  ((s.pregs preg).allocations.filter (liveOccupant s range)).length

/-- The count the check means: the occupants of `range` over all registers of the class. -/
def naiveOccupants (ctx : Ctx) (s : Env) (regClass : Nat) (range : CodeRange) : Nat :=
  ((ctx.preferredRegsByClass regClass ++ ctx.nonPreferredRegsByClass regClass).map
    (occupantsOf s range)).sum

section Count

variable {s : Env} {range : CodeRange}

/-- On a sorted map the scan adds each occupant once: it stops at the first entry past the
range, and every entry after that one lies past the range too. -/
theorem countOccupants_sum : ∀ {m : AllocMap} (counts : Nat × Nat), Sorted m →
    (countOccupants s range m counts).1 + (countOccupants s range m counts).2 =
      counts.1 + counts.2 + (m.filter (liveOccupant s range)).length
  | [], _, _ => by simp [countOccupants]
  | (key, lr) :: rest, (minCount, fixedCount), sorted => by
    obtain ⟨nonempty, apart, sortedRest⟩ := (sorted_cons_iff _).1 sorted
    simp only at nonempty apart
    have ih := fun counts => countOccupants_sum (m := rest) counts sortedRest
    by_cases before : key.to ≤ range.from
    · have dead : liveOccupant s range (key, lr) = false := by
        simp [liveOccupant, LiveRangeKey.Overlaps, LiveRangeKey.fromRange, Nat.not_lt.2 before]
      simp [countOccupants, before, dead, ih]
    by_cases after : range.to ≤ key.from
    · have none : ((key, lr) :: rest).filter (liveOccupant s range) = [] := by
        refine List.filter_eq_nil_iff.2 fun e mem => ?_
        have past : range.to ≤ e.1.from := by
          rcases List.mem_cons.1 mem with rfl | mem
          · exact after
          · have := apart e mem; omega
        simp [liveOccupant, LiveRangeKey.Overlaps, LiveRangeKey.fromRange, Nat.not_lt.2 past]
      simp [countOccupants, before, after, none]
    have overlap : range.from < key.to ∧ key.from < range.to := by omega
    cases lr with
    | some lr =>
      cases minimal : minimalBundle s (s.ranges lr).bundle <;>
        simp [countOccupants, before, after, liveOccupant, LiveRangeKey.Overlaps,
          LiveRangeKey.fromRange, overlap, minimal, ih]
      omega
    | none =>
      simp [countOccupants, before, after, liveOccupant, LiveRangeKey.Overlaps,
        LiveRangeKey.fromRange, overlap, ih]
      omega

theorem filter_rangeFrom_prev (pos : 0 < range.from) (m : AllocMap) :
    (m.rangeFrom (LiveRangeKey.fromRange ⟨ProgPoint.prev range.from, ProgPoint.prev range.from⟩)).filter
      (liveOccupant s range) = m.filter (liveOccupant s range) := by
  have start : m.rangeFrom (LiveRangeKey.fromRange
      ⟨ProgPoint.prev range.from, ProgPoint.prev range.from⟩) =
      m.dropWhile (fun e => decide (e.1.to ≤ range.from - 1)) := by
    simp [rangeFrom_eq_dropWhile, LiveRangeKey.fromRange, ProgPoint.prev,
      Nat.pos_iff_ne_zero.1 pos]
  have skipped : (m.takeWhile (fun e => decide (e.1.to ≤ range.from - 1))).filter
      (liveOccupant s range) = [] := by
    refine List.filter_eq_nil_iff.2 fun e mem => ?_
    have := List.mem_takeWhile_imp mem
    simp only [decide_eq_true_eq] at this
    simp [liveOccupant, LiveRangeKey.Overlaps, LiveRangeKey.fromRange]; omega
  conv_rhs => rw [← List.takeWhile_append_dropWhile (fun e => decide (e.1.to ≤ range.from - 1)) m]
  rw [start, List.filter_append, skipped, List.nil_append]

theorem foldl_countPRegOccupants {start : LiveRangeKey} (sorted : ∀ p, Sorted (s.pregs p).allocations)
    (skips : ∀ p, ((s.pregs p).allocations.rangeFrom start).filter (liveOccupant s range) =
      (s.pregs p).allocations.filter (liveOccupant s range)) :
    ∀ (pregs : List Nat) (counts : Nat × Nat × Nat),
      (pregs.foldl (countPRegOccupants s range start) counts).1 +
          (pregs.foldl (countPRegOccupants s range start) counts).2.1 =
        counts.1 + counts.2.1 + (pregs.map (occupantsOf s range)).sum ∧
      (pregs.foldl (countPRegOccupants s range start) counts).2.2 = counts.2.2 + pregs.length
  | [], _ => by simp
  | preg :: rest, counts => by
    obtain ⟨sum, regs⟩ := foldl_countPRegOccupants sorted skips rest
      (countPRegOccupants s range start counts preg)
    have scan := @countOccupants_sum s range _ (counts.1, counts.2.1)
      (@sorted_rangeFrom _ start (sorted preg))
    rw [skips] at scan
    simp only [List.foldl_cons, List.map_cons, List.sum_cons, List.length_cons]
    simp only [countPRegOccupants, occupantsOf] at sum regs ⊢
    omega

/-- Past point 0, on sorted maps, the check compares the exact count of occupants with the
number of registers in the class. -/
theorem occupantCounts_exact (ctx : Ctx) (regClass : Nat) (pos : 0 < range.from)
    (sorted : ∀ p, Sorted (s.pregs p).allocations) :
    (occupantCounts ctx s regClass range).1 + (occupantCounts ctx s regClass range).2.1 =
        naiveOccupants ctx s regClass range ∧
      (occupantCounts ctx s regClass range).2.2 =
        (ctx.preferredRegsByClass regClass ++ ctx.nonPreferredRegsByClass regClass).length := by
  simpa [occupantCounts, naiveOccupants] using foldl_countPRegOccupants sorted
    (fun p => filter_rangeFrom_prev pos _)
    (ctx.preferredRegsByClass regClass ++ ctx.nonPreferredRegsByClass regClass) (0, 0, 0)

/-- Past point 0, on sorted maps, the check says whether the class has no more registers than
fixed reservations and minimal-bundle entries overlapping the range. -/
theorem tooManyLiveRegs_exact (ctx : Ctx) (regClass : Nat) (pos : 0 < range.from)
    (sorted : ∀ p, Sorted (s.pregs p).allocations) :
    tooManyLiveRegs ctx s regClass range =
      decide ((ctx.preferredRegsByClass regClass ++ ctx.nonPreferredRegsByClass regClass).length ≤
        naiveOccupants ctx s regClass range) := by
  obtain ⟨occupants, regs⟩ := occupantCounts_exact ctx regClass pos sorted
  simp only [tooManyLiveRegs, occupants, regs]

/-- At point 0 the start key wraps to `u32::MAX`, past every key that fits in a `u32`, so no
register's scan sees an entry. -/
theorem occupantCounts_from_zero (ctx : Ctx) (regClass : Nat) (zero : range.from = 0)
    (bounded : ∀ p, ∀ e ∈ (s.pregs p).allocations, e.1.to ≤ u32Max) :
    occupantCounts ctx s regClass range =
      (0, 0, (ctx.preferredRegsByClass regClass ++ ctx.nonPreferredRegsByClass regClass).length) := by
  have empty : ∀ p, (s.pregs p).allocations.rangeFrom
      (LiveRangeKey.fromRange ⟨ProgPoint.prev range.from, ProgPoint.prev range.from⟩) = [] :=
    fun p => by
      simpa [rangeFrom_eq_dropWhile, List.dropWhile_eq_nil_iff, LiveRangeKey.fromRange,
        ProgPoint.prev, zero] using bounded p
  have run : ∀ (pregs : List Nat) (n : Nat), pregs.foldl (countPRegOccupants s range
      (LiveRangeKey.fromRange ⟨ProgPoint.prev range.from, ProgPoint.prev range.from⟩)) (0, 0, n) =
      (0, 0, n + pregs.length) := by
    intro pregs
    induction pregs with
    | nil => simp
    | cons preg rest ih =>
      intro n
      simp only [List.foldl_cons, countPRegOccupants, empty, countOccupants, ih]
      simp [Nat.add_assoc, Nat.add_comm 1]
  rw [occupantCounts, run]
  simp

/-- A minimal bundle whose first range starts at point 0 never gets the clean error: in a
nonempty class the check counts no occupant, and the attempt ends in the panic. -/
theorem decideAfterProbe_point_zero {ctx : Ctx} {bundle regClass : Nat} {req : Requirement}
    {attempts : Nat} {best : ProbeBest} {first : LiveRangeListEntry}
    {rest : List LiveRangeListEntry} (ranges : (s.bundles bundle).ranges = first :: rest)
    (zero : first.range.from = 0)
    (bounded : ∀ p, ∀ e ∈ (s.pregs p).allocations, e.1.to ≤ u32Max)
    (regs : ctx.preferredRegsByClass regClass ++ ctx.nonPreferredRegsByClass regClass ≠ [])
    (minimalBranch : minimalBundle s bundle ∧ (2 ≤ attempts ∨ best.evictCost = none ∨
      best.evictCost.getD 0 ≥ bundleSpillWeight s bundle)) :
    decideAfterProbe ctx s bundle regClass req attempts best = .error (.panic minimalBundlePanic) := by
  have clean : tooManyLiveRegs ctx s regClass first.range = false := by
    simpa [tooManyLiveRegs, occupantCounts_from_zero ctx regClass zero bounded, List.length_pos]
      using regs
  simp [decideAfterProbe, minimalBranch, ranges, clean]

end Count

/-- A minimal bundle over `[0, 2)` and a class of one register, reserved over that range. -/
def pointZeroExample : Env :=
  { probeExample with
    ranges := fun _ => ⟨⟨0, 2⟩, some 0, 0, [], 0, false⟩
    numRanges := 1
    bundles := fun _ => ⟨[⟨⟨0, 2⟩, 0⟩], 0, .none, 4, 2000, true, false, false⟩
    numBundles := 1
    pregs := fun _ => ⟨[(⟨0, 2⟩, none)], false⟩ }

theorem pointZeroExample_panics :
    Occupancy pointZeroExample ∧
      naiveOccupants probeCtx pointZeroExample 0 ⟨0, 2⟩ = 1 ∧
      (probeCtx.preferredRegsByClass 0 ++ probeCtx.nonPreferredRegsByClass 0).length = 1 ∧
      occupantCounts probeCtx pointZeroExample 0 ⟨0, 2⟩ = (0, 0, 1) ∧
      processBundle probeCtx pointZeroExample 0 99 = .error (.panic minimalBundlePanic) := by
  have bounded : ∀ p, ∀ e ∈ (pointZeroExample.pregs p).allocations, e.1.to ≤ u32Max :=
    fun _ e mem => by simp only [pointZeroExample, List.mem_singleton] at mem; simp [mem, u32Max]
  have probed : processAttempt probeCtx scanLimitCost pointZeroExample 0 0 0 .register 1 =
      decideAfterProbe probeCtx pointZeroExample 0 0 .register 1 ⟨none, none, some 1, 0, 0⟩ := rfl
  refine ⟨⟨fun _ => show Sorted [(⟨0, 2⟩, none)] by decide, fun _ e mem lr owner => by
      simp only [pointZeroExample, List.mem_singleton] at mem
      simp [mem] at owner⟩,
    by decide, by decide, occupantCounts_from_zero probeCtx 0 rfl bounded, ?_⟩
  have panics : decideAfterProbe probeCtx pointZeroExample 0 0 .register 1
      ⟨none, none, some 1, 0, 0⟩ = .error (.panic minimalBundlePanic) :=
    decideAfterProbe_point_zero rfl rfl bounded (by decide) ⟨rfl, .inr (.inl rfl)⟩
  show attemptLoop probeCtx scanLimitCost 0 0 0 .register 2 0 pointZeroExample = _
  simp only [attemptLoop, Nat.zero_add, probed, panics]

/-- From point 2 on, the check on the probe example sees bundle 0's entry in PReg 0. -/
theorem probeExample_tooManyLiveRegs_exact :
    0 < (⟨2, 4⟩ : CodeRange).from ∧ (∀ p, Sorted (probeExample.pregs p).allocations) ∧
      tooManyLiveRegs probeCtx probeExample 0 ⟨2, 4⟩ =
        decide ((probeCtx.preferredRegsByClass 0 ++ probeCtx.nonPreferredRegsByClass 0).length ≤
          naiveOccupants probeCtx probeExample 0 ⟨2, 4⟩) :=
  have sorted : ∀ p, Sorted (probeExample.pregs p).allocations := fun _ =>
    (by decide : Sorted [(⟨0, 4⟩, some 0)])
  ⟨by decide, sorted, tooManyLiveRegs_exact probeCtx 0 (by decide) sorted⟩

end IonRegalloc
