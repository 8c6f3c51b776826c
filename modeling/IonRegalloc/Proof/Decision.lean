import IonRegalloc.Proof.Probe
import IonRegalloc.Ion.Process

/-! What the probe loop keeps and what `process_bundle` decides from it: an eviction removes
only strictly lighter bundles. -/

namespace IonRegalloc

/-- The retained eviction candidate is a set with its cost, the set's largest weight. -/
def ProbeBest.EvictCostIsMax (s : Env) (best : ProbeBest) : Prop :=
  match best.evictSet, best.evictCost with
  | some bundles, some cost => cost = maximumSpillWeightInBundleSet s bundles
  | none, none => True
  | _, _ => False

/-- Every cached weight is one `recompute_bundle_properties` can give: at least
`MINIMAL_BUNDLE_SPILL_WEIGHT` for a minimal bundle, at most `BUNDLE_MAX_NORMAL_SPILL_WEIGHT`
for any other. -/
structure WeightsCapped (ctx : Ctx) (s : Env) : Prop where
  minimal : ∀ b, minimalBundle s b = true → ctx.minimalBundleSpillWeight ≤ bundleSpillWeight s b
  normal : ∀ b, minimalBundle s b = false → bundleSpillWeight s b ≤ ctx.bundleMaxNormalSpillWeight

namespace ProbeBest

variable {ctx : Ctx} {s : Env} {best : ProbeBest} {preg cost point : Nat}

@[simp] theorem noteSplit_evictSet : (best.noteSplit preg cost point).evictSet = best.evictSet := by
  unfold noteSplit; split <;> rfl

@[simp] theorem noteSplit_evictCost :
    (best.noteSplit preg cost point).evictCost = best.evictCost := by
  unfold noteSplit; split <;> rfl

theorem initial_evictCostIsMax : (initial ctx).EvictCostIsMax s := trivial

theorem EvictCostIsMax.noteConflict (kept : best.EvictCostIsMax s) (bundles : List Nat) :
    (best.noteConflict ctx s preg bundles point).EvictCostIsMax s := by
  by_cases lower : lowerCost (maximumSpillWeightInBundleSet s bundles) best.evictCost = true
  · simp [ProbeBest.noteConflict, lower, EvictCostIsMax]
  · simpa [ProbeBest.noteConflict, lower, EvictCostIsMax] using kept

theorem EvictCostIsMax.noteFixedConflict (kept : best.EvictCostIsMax s) (maxCost : Nat) :
    (best.noteFixedConflict ctx preg maxCost point).EvictCostIsMax s := by
  simpa [ProbeBest.noteFixedConflict, EvictCostIsMax] using kept

theorem EvictCostIsMax.noteResult (kept : best.EvictCostIsMax s) (result : AllocRegResult) :
    (best.noteResult ctx s preg result).EvictCostIsMax s := by
  cases result with
  | conflict bundles point => exact kept.noteConflict bundles
  | conflictWithFixed maxCost point => exact kept.noteFixedConflict maxCost
  | _ => exact kept

end ProbeBest

theorem probeRegs_evictCostIsMax {ctx : Ctx} {limit : Option Nat → Option Nat → Option Nat}
    {s : Env} {bundle : Nat} {best' : ProbeBest} :
    ∀ (pregs : List Nat) (best : ProbeBest), best.EvictCostIsMax s →
      probeRegs ctx limit s bundle pregs best = .ok (.exhausted best') → best'.EvictCostIsMax s
  | [], best, kept, probed => by cases probed; exact kept
  | preg :: rest, best, kept, probed => by
    simp only [probeRegs] at probed
    split at probed
    · cases probed
    · cases probed
    · exact probeRegs_evictCostIsMax rest _ (kept.noteResult _) probed

theorem decideAfterProbe_eq_evict {ctx : Ctx} {s : Env} {bundle regClass : Nat}
    {req : Requirement} {attempts : Nat} {best : ProbeBest} {bundles : List Nat}
    (decided : decideAfterProbe ctx s bundle regClass req attempts best = .ok (.evict bundles)) :
    best.evictSet = some bundles ∧ attempts < 2 ∧
      ∃ cost, best.evictCost = some cost ∧ cost < bundleSpillWeight s bundle := by
  simp only [decideAfterProbe] at decided
  by_cases minimalCase : minimalBundle s bundle = true ∧ (2 ≤ attempts ∨ best.evictCost = none ∨
      best.evictCost.getD 0 ≥ bundleSpillWeight s bundle)
  · rw [if_pos minimalCase] at decided
    split at decided
    · cases decided
    · split at decided <;> cases decided
  rw [if_neg minimalCase] at decided
  by_cases splitCase : ¬ minimalBundle s bundle = true ∧ (2 ≤ attempts ∨ best.evictCost = none ∨
      bundleSpillWeight s bundle ≤ best.evictCost.getD 0)
  · rw [if_pos splitCase] at decided
    split at decided
    · cases decided
    · split at decided <;> cases decided
  rw [if_neg splitCase] at decided
  cases set : best.evictSet with
  | none => simp [set] at decided
  | some retained =>
    simp only [set, Except.ok.injEq, AttemptResult.evict.injEq] at decided
    cases cost : best.evictCost with
    | none =>
      by_cases minimal : minimalBundle s bundle = true <;> simp [cost, minimal] at minimalCase splitCase
    | some c =>
      refine ⟨decided ▸ rfl, ?_, c, rfl, ?_⟩ <;>
        by_cases minimal : minimalBundle s bundle = true <;>
        simp [cost, minimal] at minimalCase splitCase <;> omega

theorem probeAndDecide_eq_evict {ctx : Ctx} {limit : Option Nat → Option Nat → Option Nat}
    {s : Env} {bundle regClass hintReg : Nat} {req : Requirement} {attempts : Nat}
    {fixedPreg : Option Nat} {bundles : List Nat}
    (evicted : probeAndDecide ctx limit s bundle regClass hintReg req attempts fixedPreg =
      .ok (.evict bundles)) :
    ∃ best, best.EvictCostIsMax s ∧
      decideAfterProbe ctx s bundle regClass req attempts best = .ok (.evict bundles) := by
  simp only [probeAndDecide] at evicted
  split at evicted
  · cases evicted
  · split at evicted
    · cases evicted
    · split at evicted <;> cases evicted
    · exact ⟨_, probeRegs_evictCostIsMax _ _ ProbeBest.initial_evictCostIsMax ‹_›, evicted⟩

theorem processAttempt_eq_evict {ctx : Ctx} {limit : Option Nat → Option Nat → Option Nat}
    {s : Env} {bundle regClass hintReg : Nat} {req : Requirement} {attempts : Nat}
    {bundles : List Nat}
    (evicted : processAttempt ctx limit s bundle regClass hintReg req attempts =
      .ok (.evict bundles)) :
    ∃ best, best.EvictCostIsMax s ∧
      decideAfterProbe ctx s bundle regClass req attempts best = .ok (.evict bundles) := by
  cases req <;> simp only [processAttempt] at evicted
  all_goals first
    | exact probeAndDecide_eq_evict evicted
    | cases evicted

section Evict

variable {ctx : Ctx} {limit : Option Nat → Option Nat → Option Nat} {s : Env}
  {bundle regClass hintReg : Nat} {req : Requirement} {attempts : Nat} {bundles : List Nat}

/-- An eviction round evicts only bundles strictly lighter than the bundle being processed: the
retained cost is the set's largest weight, and the evict branch needs it below. -/
theorem processAttempt_evict_lighter
    (evicted : processAttempt ctx limit s bundle regClass hintReg req attempts =
      .ok (.evict bundles)) :
    ∀ x ∈ bundles, bundleSpillWeight s x < bundleSpillWeight s bundle := by
  obtain ⟨best, kept, decided⟩ := processAttempt_eq_evict evicted
  obtain ⟨set, -, cost, retained, below⟩ := decideAfterProbe_eq_evict decided
  have isMax : cost = maximumSpillWeightInBundleSet s bundles := by
    simpa [ProbeBest.EvictCostIsMax, set, retained] using kept
  exact fun x member =>
    lt_of_le_of_lt (maximumSpillWeightInBundleSet_le_iff.mp (isMax ▸ le_rfl) x member) below

theorem processAttempt_evicts_lighter
    (evicted : processAttempt ctx limit s bundle regClass hintReg req attempts =
      .ok (.evict bundles)) :
    ∀ x ∈ bundles, bundleSpillWeight s x < bundleSpillWeight s bundle ∧
      (WeightsCapped ctx s → minimalBundle s x = true → minimalBundle s bundle = true) := by
  intro x member
  have lighter := processAttempt_evict_lighter evicted x member
  refine ⟨lighter, fun capped minimalX => ?_⟩
  by_contra notMinimal
  have := capped.minimal x minimalX
  have := capped.normal bundle (by simpa using notMinimal)
  have := ctx.weights_ordered.1
  omega

end Evict

/-- One register, PReg 0, which every traversal yields; every bundle requires a register. -/
def probeCtx : Ctx where
  numInsts := 4
  insnBlock _ := 0
  approxLoopDepth _ := 0
  blockEntry _ := 0
  preferredRegsByClass _ := [0]
  nonPreferredRegsByClass _ := []
  regTraversal _ _ _ _ _ := [0]
  computeRequirement _ _ := .ok .register
  spillWeightFromConstraint _ _ _ := 1
  minimalFixedBundleSpillWeight := 3000
  minimalBundleSpillWeight := 2000
  bundleMaxNormalSpillWeight := 1000
  weights_ordered := by decide
  invalidPReg := 99

theorem probeExample_evicts_lighter :
    processAttempt probeCtx scanLimitCost probeExample 1 0 99 .register 1 = .ok (.evict [0]) ∧
      ∀ x ∈ [0], bundleSpillWeight probeExample x < bundleSpillWeight probeExample 1 ∧
        (WeightsCapped probeCtx probeExample → minimalBundle probeExample x = true →
          minimalBundle probeExample 1 = true) :=
  have evicted :
      processAttempt probeCtx scanLimitCost probeExample 1 0 99 .register 1 = .ok (.evict [0]) :=
    rfl
  ⟨evicted, processAttempt_evicts_lighter evicted⟩

/-- The fixed register a use's constraint names, if any. -/
def fixedRegOf (u : Use) : Option Nat :=
  match u.operand.constraint with
  | .fixedReg preg => some preg
  | _ => none

/-- Merges the fixed registers `uses` name into `fixed`, failing at the first use that names a
register other than one named before it. -/
def mergeFixed : Option Nat → List Use → Except Nat (Option Nat)
  | fixed, [] => .ok fixed
  | fixed, u :: rest =>
    match fixed, fixedRegOf u with
    | some preg, some other => if preg = other then mergeFixed fixed rest else .error u.pos
    | _, some other => mergeFixed (some other) rest
    | fixed, none => mergeFixed fixed rest

theorem mergeFixed_error_mem : ∀ {fixed : Option Nat} {uses : List Use} {pos : Nat},
    mergeFixed fixed uses = .error pos → ∃ u ∈ uses, u.pos = pos
  | _, [], _, merged => by cases merged
  | _, u :: rest, pos, merged => by
    have later : ∀ {fixed}, mergeFixed fixed rest = .error pos → ∃ v ∈ u :: rest, v.pos = pos :=
      fun merged => (mergeFixed_error_mem merged).imp fun _ ⟨mem, same⟩ =>
        ⟨List.mem_cons_of_mem _ mem, same⟩
    simp only [mergeFixed] at merged
    split at merged
    · split at merged
      · exact later merged
      · cases merged; exact ⟨u, List.mem_cons_self _ _, rfl⟩
    all_goals exact later merged

/-- A `compute_requirement` for the examples: the fixed register the bundle's uses agree on, or
any register. Uses naming two registers conflict at the point of the one that disagrees, except
in a bundle within one instruction, which `process_bundle` asserts never conflicts. -/
def fixedRequirement (s : Env) (bundle : Nat) : Except Nat Requirement :=
  let ranges := (s.bundles bundle).ranges
  match mergeFixed none (ranges.flatMap fun entry => (s.ranges entry.index).uses),
      ranges.head?, ranges.getLast? with
  | .ok none, _, _ => .ok .register
  | .ok (some preg), _, _ => .ok (.fixedReg preg)
  | .error pos, some first, some last =>
    if spansOneInst first.range.from last.range.to then .ok .register else .error pos
  | .error _, _, _ => .ok .register

/-- Two registers, PRegs 0 and 1, which a traversal yields in order unless the requirement fixes
one; requirements come from the uses' fixed registers. -/
def fixedCtx : Ctx :=
  { probeCtx with
    preferredRegsByClass := fun _ => [0, 1]
    regTraversal := fun _ _ _ _ fixed => match fixed with
      | some preg => [preg]
      | none => [0, 1]
    computeRequirement := fixedRequirement }

theorem bundleWeight_capped (ctx : Ctx) (minimal fixed : Bool) (total prio : Nat) :
    (minimal = true → ctx.minimalBundleSpillWeight ≤ bundleWeight ctx minimal fixed total prio) ∧
    (minimal = false → bundleWeight ctx minimal fixed total prio ≤ ctx.bundleMaxNormalSpillWeight) := by
  have := ctx.weights_ordered
  cases minimal <;> cases fixed <;> simp [bundleWeight] <;> (try split) <;> omega

theorem recomputeBundleProperties_weightsCapped {ctx : Ctx} {s s' : Env} {bundle : Nat}
    (capped : WeightsCapped ctx s) (recomputed : recomputeBundleProperties ctx s bundle = .ok s') :
    WeightsCapped ctx s' := by
  obtain ⟨flags, total, rfl⟩ := recomputeBundleProperties_eq recomputed
  have capNew := bundleWeight_capped ctx flags.1 flags.2.1 total (computeBundlePrio s bundle)
  constructor <;> intro b <;> by_cases here : b = bundle <;>
    simp [minimalBundle, bundleSpillWeight, here] at capNew ⊢
  · exact capNew.1
  · exact capped.minimal b
  · exact capNew.2
  · exact capped.normal b

end IonRegalloc
