import IonRegalloc.Proof.Retry
import IonRegalloc.Proof.SplitChoice

/-! What one successful `process_bundle` does to the state, said once as an inversion; every run
invariant is derived from it. -/

namespace IonRegalloc

section Scan

variable {s : Env} {reg : Nat} {c : Option Nat}

theorem recordConflict_error {key pregKey : LiveRangeKey} {lr : Option Nat} {scan : ConflictScan}
    {result : AllocRegResult} (early : recordConflict s c key pregKey lr scan = .error result) :
    ∀ alloc, result ≠ .allocated alloc := by
  simp only [recordConflict] at early
  split at early
  · cases early; simp
  · split at early
    · cases early
    · split at early <;> cases early; simp

theorem allocLoop_early {range : CodeRange} : ∀ (fuel : Nat) (iter : AllocMap) (skips : Nat)
    (scan : ConflictScan) (result : AllocRegResult),
    allocLoop s reg c range fuel iter skips scan = .early result → ∀ alloc, result ≠ .allocated alloc
  | 0, _, _, _, _, run => by cases run
  | _ + 1, [], _, _, _, run => by cases run
  | fuel + 1, _ :: _, _, _, _, run => by
    simp only [allocLoop] at run
    split at run
    · split at run <;> exact allocLoop_early fuel _ _ _ _ run
    · split at run
      · cases run
      · split at run
        · cases run; exact recordConflict_error ‹_›
        · exact allocLoop_early fuel _ _ _ _ run

theorem rangesLoop_early (fuel : Nat) : ∀ (ranges : List LiveRangeListEntry) (iter : AllocMap)
    (scan : ConflictScan) (result : AllocRegResult),
    rangesLoop s reg c fuel ranges iter scan = .early result → ∀ alloc, result ≠ .allocated alloc
  | [], _, _, _, run => by cases run
  | _ :: _, _, _, _, run => by
    simp only [rangesLoop] at run
    split at run
    · exact rangesLoop_early fuel _ _ _ _ run
    · cases run
    · cases run; exact allocLoop_early _ _ _ _ _ ‹_›
    · cases run

theorem tryToAllocateBundleToReg_ok {bundle : Nat} {result : AllocRegResult} {s' : Env}
    (probe : tryToAllocateBundleToReg s bundle reg c = .ok (result, s')) :
    (s.bundles bundle).ranges ≠ [] ∧
      (result = .allocated (.reg reg) ∧ s' = assignBundle s bundle reg ∨
        s' = s ∧ ∀ alloc, result ≠ .allocated alloc) := by
  simp only [tryToAllocateBundleToReg] at probe
  split at probe
  · cases probe
  rename_i first head
  refine ⟨fun empty => by simp [empty] at head, ?_⟩
  split at probe
  · cases probe
  · cases probe; exact .inr ⟨rfl, rangesLoop_early _ _ _ _ _ ‹_›⟩
  · unfold concludeScan at probe
    split at probe
    · split at probe <;> cases probe; exact .inr ⟨rfl, by simp⟩
    · cases probe; exact .inl ⟨rfl, rfl⟩

end Scan

section Probe

variable {ctx : Ctx} {limit : Option Nat → Option Nat → Option Nat} {s : Env} {bundle : Nat}

theorem probeRegs_allocated {alloc : Allocation} {s' : Env} : ∀ (pregs : List Nat) (best : ProbeBest),
    probeRegs ctx limit s bundle pregs best = .ok (.allocated alloc s') →
    ∃ reg c, alloc = .reg reg ∧ s' = assignBundle s bundle reg ∧
      (s.bundles bundle).ranges ≠ [] ∧
      tryToAllocateBundleToReg s bundle reg c = .ok (.allocated (.reg reg), assignBundle s bundle reg)
  | [], _, run => by cases run
  | reg :: rest, best, run => by
    simp only [probeRegs] at run
    split at run
    · cases run
    · rename_i probe
      cases run
      obtain ⟨nonempty, ⟨result, state⟩ | ⟨-, never⟩⟩ := tryToAllocateBundleToReg_ok probe
      · cases result; cases state
        exact ⟨reg, _, rfl, rfl, nonempty, probe⟩
      · exact absurd rfl (never _)
    · exact probeRegs_allocated rest _ run

theorem probeAndDecide_evict_conflict {regClass hintReg : Nat} {req : Requirement}
    {attempts : Nat} {fixedPreg : Option Nat} {bundles : List Nat}
    (evicted : probeAndDecide ctx limit s bundle regClass hintReg req attempts fixedPreg =
      .ok (.evict bundles)) :
    ∃ reg c point s₀, tryToAllocateBundleToReg s bundle reg c = .ok (.conflict bundles point, s₀) := by
  simp only [probeAndDecide] at evicted
  split at evicted
  · cases evicted
  · split at evicted
    · cases evicted
    · split at evicted <;> cases evicted
    · rename_i best probed
      obtain ⟨kept, -, -⟩ := decideAfterProbe_eq_evict evicted
      rcases probeRegs_evictSet _ _ _ probed kept with initial | ⟨-, reg, -, c, point, s₀, -, conflict⟩
      · cases initial
      · exact ⟨reg, c, point, s₀, conflict⟩

end Probe

/-- `point` lies in `[bundle_start, bundle_end)` of the bundle's range list. -/
def InsideBundle (s : Env) (bundle point : Nat) : Prop :=
  ∀ first last, (s.bundles bundle).ranges.head? = some first →
    (s.bundles bundle).ranges.getLast? = some last → first.range.from ≤ point ∧ point < last.range.to

/-- The contract of `compute_requirement` the split at line 755 relies on: on a bundle whose list
is sorted, agrees with the arena and holds its uses, it reports a conflict only when the bundle
spans more than one instruction, as the `debug_assert!` there says, and only inside it. -/
def ConflictsInside (ctx : Ctx) : Prop :=
  ∀ s bundle point, ListReady s (s.bundles bundle).ranges →
    ctx.computeRequirement s bundle = .error point →
    (∀ first last, (s.bundles bundle).ranges.head? = some first →
      (s.bundles bundle).ranges.getLast? = some last →
      spansOneInst first.range.from last.range.to = false) ∧ InsideBundle s bundle point

theorem ConflictsInside.conflict {ctx : Ctx} {s : Env} {bundle point : Nat}
    (contract : ConflictsInside ctx) (ready : ListReady s (s.bundles bundle).ranges)
    (flags : ∀ first last, (s.bundles bundle).ranges.head? = some first →
      (s.bundles bundle).ranges.getLast? = some last →
      minimalBundle s bundle = spansOneInst first.range.from last.range.to)
    (nonempty : (s.bundles bundle).ranges ≠ [])
    (conflict : ctx.computeRequirement s bundle = .error point) :
    minimalBundle s bundle = false ∧ InsideBundle s bundle point := by
  obtain ⟨spans, inside⟩ := contract _ _ _ ready conflict
  obtain ⟨first, head⟩ := Option.ne_none_iff_exists'.mp (mt List.head?_eq_none_iff.mp nonempty)
  obtain ⟨last, tail⟩ := Option.ne_none_iff_exists'.mp (mt List.getLast?_eq_none_iff.mp nonempty)
  exact ⟨(flags first last head tail).trans (spans first last head tail), inside⟩

theorem fixedCtx_conflictsInside : ConflictsInside fixedCtx := by
  intro s bundle point ready conflict
  change fixedRequirement s bundle = .error point at conflict
  dsimp only [fixedRequirement] at conflict
  split at conflict
  · cases conflict
  · cases conflict
  · rename_i first last merged head tail
    split at conflict
    · cases conflict
    · rename_i spans
      cases conflict
      obtain ⟨u, used, rfl⟩ := mergeFixed_error_mem merged
      obtain ⟨rest, ranges⟩ := List.head?_eq_some_iff.mp head
      rw [ranges] at ready used
      have lastEq : (first :: rest).getLast (List.cons_ne_nil _ _) = last := by
        rw [ranges, List.getLast?_eq_getLast _ (List.cons_ne_nil _ _)] at tail
        exact Option.some.inj tail
      refine ⟨fun first' last' head' tail' => ?_, fun first' last' head' tail' => ?_⟩ <;>
        obtain rfl := Option.some.inj (head'.symm.trans head) <;>
        obtain rfl := Option.some.inj (tail'.symm.trans tail)
      · simpa using spans
      · exact lastEq ▸ ready.use_inside used
  · cases conflict

theorem RangesSorted.head_lt_getLast {l : List LiveRangeListEntry} (sorted : RangesSorted l)
    {first last : LiveRangeListEntry} (head : l.head? = some first) (tail : l.getLast? = some last) :
    first.range.from < last.range.to := by
  obtain ⟨rest, rfl⟩ := List.head?_eq_some_iff.mp head
  have lastEq := Option.some.inj ((List.getLast?_eq_getLast _ (List.cons_ne_nil _ _)).symm.trans tail)
  have nonempty := KeysSorted.nonempty sorted first (List.mem_cons_self _ _)
  have := sorted.le_getLast (List.cons_ne_nil _ _) (List.mem_cons_self first rest)
  simp only [LiveRangeKey.fromRange_from, LiveRangeKey.fromRange_to] at nonempty
  rw [lastEq] at this
  omega

/-- How a probe sequence that finishes leaves the state it ran in: the non-minimal bundle is
split at a point inside it, or it is assigned to a register whose probe found it free and that
register becomes its spillset's hint. -/
inductive ProbeDone (ctx : Ctx) (s : Env) (bundle : Nat) : Env → Prop
  | split {splitAt regHint : Nat} {s' : Env} (nonMinimal : minimalBundle s bundle = false)
      (inside : InsideBundle s bundle splitAt)
      (split : splitAndRequeueBundle ctx s bundle splitAt regHint = .ok s') :
      ProbeDone ctx s bundle s'
  | allocated {reg : Nat} {c : Option Nat} (nonempty : (s.bundles bundle).ranges ≠ [])
      (free : tryToAllocateBundleToReg s bundle reg c =
        .ok (.allocated (.reg reg), assignBundle s bundle reg)) :
      ProbeDone ctx s bundle ((assignBundle s bundle reg).updateSpillSet
        (s.bundles bundle).spillset fun ss => { ss with regHint := reg })

/-- How an attempt that finishes leaves the state it ran in: its probe sequence finished, or
the bundle's spillset is marked for the stack, or the bundle is listed as spilled. -/
inductive AttemptDone (ctx : Ctx) (s : Env) (bundle : Nat) : Env → Prop
  | probed {s' : Env} (done : ProbeDone ctx s bundle s') : AttemptDone ctx s bundle s'
  | required : AttemptDone ctx s bundle
      (s.updateSpillSet (s.bundles bundle).spillset fun ss => { ss with required := true })
  | spilled : AttemptDone ctx s bundle { s with spilledBundles := s.spilledBundles ++ [bundle] }

/-- What one successful `process_bundle` does: an attempt finishes in the state it was given,
or a probe finishes after evicting strictly lighter bundles that a probe reported in conflict,
or an `Any` bundle hands its ranges to its spillset's existing spill bundle. -/
inductive Processed (ctx : Ctx) (s : Env) (bundle : Nat) : Env → Prop
  | attempt {s' : Env} (done : AttemptDone ctx s bundle s') : Processed ctx s bundle s'
  | retry {bundles : List Nat} {s' : Env}
      (conflict : ∃ reg c point s₀,
        tryToAllocateBundleToReg s bundle reg c = .ok (.conflict bundles point, s₀))
      (lighter : ∀ x ∈ bundles, bundleSpillWeight s x < bundleSpillWeight s bundle)
      (done : ProbeDone ctx (evictAll ctx s bundles) bundle s') : Processed ctx s bundle s'
  | moveToSpill {spill : Nat}
      (found : (s.spillsets (s.bundles bundle).spillset).spillBundle = some spill) :
      Processed ctx s bundle (moveToSpillBundle s bundle spill)

section Attempts

variable {ctx : Ctx} {limit : Option Nat → Option Nat → Option Nat} {s s' : Env}
  {bundle regClass hintReg : Nat} {req : Requirement}

/-- The point the split branch hands to the split, the best split point raised to the bundle
start and hoisted, lies inside the bundle while the probe kept its point before the end. -/
theorem hoistedSplit_inside {best : ProbeBest} {first : LiveRangeListEntry}
    (cfg : CfgWellFormed ctx) (sorted : RangesSorted (s.bundles bundle).ranges)
    (head : (s.bundles bundle).ranges.head? = some first)
    (below : ∀ last, (s.bundles bundle).ranges.getLast? = some last →
      best.splitPoint < last.range.to) :
    InsideBundle s bundle
      (hoistSplitPoint ctx first.range.from (max best.splitPoint first.range.from)) := by
  intro first' last head' tail
  obtain rfl : first = first' := Option.some.inj (head.symm.trans head')
  obtain ⟨lower, upper⟩ :=
    hoistSplitPoint_between cfg (le_max_right best.splitPoint first.range.from)
  exact ⟨lower, lt_of_le_of_lt upper (max_lt (below last tail) (sorted.head_lt_getLast head tail))⟩

theorem decideAfterProbe_done {attempts : Nat} {best : ProbeBest} (cfg : CfgWellFormed ctx)
    (sorted : RangesSorted (s.bundles bundle).ranges)
    (below : ∀ last, (s.bundles bundle).ranges.getLast? = some last →
      best.splitPoint < last.range.to)
    (decided : decideAfterProbe ctx s bundle regClass req attempts best = .ok (.done s')) :
    ProbeDone ctx s bundle s' := by
  simp only [decideAfterProbe] at decided
  split at decided
  · split at decided
    · cases decided
    · split at decided <;> cases decided
  · split at decided
    · rename_i splitBranch
      split at decided
      · cases decided
      · split at decided
        · cases decided
        · cases decided
          exact .split (by simpa using splitBranch.1) (hoistedSplit_inside cfg sorted ‹_› below) ‹_›
    · split at decided <;> cases decided

theorem probeRegs_exhausted_below {best : ProbeBest} {pregs : List Nat}
    (sorted : RangesSorted (s.bundles bundle).ranges)
    (run : probeRegs ctx limit s bundle pregs (ProbeBest.initial ctx) = .ok (.exhausted best))
    {last : LiveRangeListEntry} (tail : (s.bundles bundle).ranges.getLast? = some last) :
    best.splitPoint < last.range.to := by
  have nonempty : (s.bundles bundle).ranges ≠ [] := fun empty => by simp [empty] at tail
  have lastEq := Option.some.inj ((List.getLast?_eq_getLast _ nonempty).symm.trans tail)
  have inside : ∀ entry ∈ (s.bundles bundle).ranges,
      entry.range.from < entry.range.to ∧ entry.range.to ≤ last.range.to := fun e member =>
    ⟨by simpa [LiveRangeKey.fromRange] using KeysSorted.nonempty sorted e member,
      lastEq ▸ sorted.le_getLast nonempty member⟩
  have := (inside last (List.mem_of_getLast?_eq_some tail)).1
  exact probeRegs_splitPoint_below inside _ _ (by simp [ProbeBest.initial]; omega) run

/-- A probe sequence that finishes allocates the bundle where a probe found it free, or splits
it from the decision after the loop. -/
theorem probeAndDecide_done {attempts : Nat} {fixedPreg : Option Nat} (cfg : CfgWellFormed ctx)
    (sorted : RangesSorted (s.bundles bundle).ranges)
    (done : probeAndDecide ctx limit s bundle regClass hintReg req attempts fixedPreg =
      .ok (.done s')) :
    ProbeDone ctx s bundle s' := by
  simp only [probeAndDecide] at done
  split at done
  · cases done
  · split at done
    · cases done
    · rename_i alloc s₁ run
      obtain ⟨reg, c, rfl, rfl, nonempty, free⟩ := probeRegs_allocated _ _ run
      simp only [Allocation.asReg, Except.ok.injEq, AttemptResult.done.injEq] at done
      subst done
      simpa [assignBundle] using (ProbeDone.allocated nonempty free : ProbeDone ctx s bundle _)
    · exact decideAfterProbe_done cfg sorted
        (fun _ tail => probeRegs_exhausted_below sorted ‹_› tail) done

theorem processAttempt_done {attempts : Nat} (cfg : CfgWellFormed ctx)
    (sorted : RangesSorted (s.bundles bundle).ranges)
    (done : processAttempt ctx limit s bundle regClass hintReg req attempts = .ok (.done s')) :
    AttemptDone ctx s bundle s' := by
  cases req <;> simp only [processAttempt] at done
  case stack => cases done; exact .required
  case any => cases done; exact .spilled
  all_goals exact .probed (probeAndDecide_done cfg sorted done)

/-- The attempt loop evicts at most once: a second attempt never takes the evict branch, and
after an eviction only a probe can finish. -/
theorem attemptLoop_processed (cfg : CfgWellFormed ctx)
    (sorted : RangesSorted (s.bundles bundle).ranges) :
    ∀ {fuel : Nat}, attemptLoop ctx limit bundle regClass hintReg req fuel 0 s = .ok s' →
      Processed ctx s bundle s'
  | 0, loop => by cases loop
  | fuel + 1, loop => by
    simp only [attemptLoop, Nat.zero_add] at loop
    split at loop
    · cases loop
    · cases loop; exact .attempt (processAttempt_done cfg sorted ‹_›)
    · rename_i bundles evicted
      have lighter := processAttempt_evict_lighter evicted
      obtain ⟨fixedPreg, probes⟩ := processAttempt_eq_probeAndDecide evicted
      rw [probes] at evicted
      have conflict := probeAndDecide_evict_conflict evicted
      have sorted' : RangesSorted ((evictAll ctx s bundles).bundles bundle).ranges := by
        obtain ⟨_, same⟩ := evictAll_bundles ctx s bundles bundle
        rw [same]; exact sorted
      cases fuel with
      | zero => cases loop
      | succ fuel =>
        simp only [attemptLoop, probes] at loop
        split at loop
        · cases loop
        · cases loop; exact .retry conflict lighter (probeAndDecide_done cfg sorted' ‹_›)
        · rename_i again
          obtain ⟨_, _, decided⟩ := processAttempt_eq_evict (by rw [probes]; exact again)
          have := (decideAfterProbe_eq_evict decided).2.1
          omega

theorem processBundleWith_processed {regHint : Nat} (cfg : CfgWellFormed ctx)
    (contract : ConflictsInside ctx) (ready : ListReady s (s.bundles bundle).ranges)
    (flags : ∀ first last, (s.bundles bundle).ranges.head? = some first →
      (s.bundles bundle).ranges.getLast? = some last →
      minimalBundle s bundle = spansOneInst first.range.from last.range.to)
    (nonempty : (s.bundles bundle).ranges ≠ [])
    (processed : processBundleWith ctx limit s bundle regHint = .ok s') :
    Processed ctx s bundle s' := by
  simp only [processBundleWith] at processed
  split at processed
  · obtain ⟨nonMinimal, inside⟩ := contract.conflict ready flags nonempty ‹_›
    exact .attempt (.probed (.split nonMinimal inside processed))
  · split at processed
    · cases processed
      refine .moveToSpill ?_
      have found := ‹(getOrCreateSpillBundle s bundle false).1 = some _›
      simp only [getOrCreateSpillBundle] at found
      split at found <;> simp_all
    · exact attemptLoop_processed cfg ready.sorted processed

end Attempts

end IonRegalloc
