import IonRegalloc.Proof.Run

/-! The caps on cached spill weights hold in every state a run reaches. -/

namespace IonRegalloc

/-- A bundle whose cached weight is within the caps its minimal flag sets. -/
def LiveBundle.Capped (ctx : Ctx) (b : LiveBundle) : Prop :=
  (b.minimal = true → ctx.minimalBundleSpillWeight ≤ b.spillWeight) ∧
    (b.minimal = false → b.spillWeight ≤ ctx.bundleMaxNormalSpillWeight)

section Writes

variable {ctx : Ctx} {s s' : Env}

theorem weightsCapped_iff : WeightsCapped ctx s ↔ ∀ x, (s.bundles x).Capped ctx :=
  ⟨fun capped x => ⟨capped.minimal x, capped.normal x⟩,
    fun capped => ⟨fun x => (capped x).1, fun x => (capped x).2⟩⟩

theorem weightsCapped_congr (same : s'.bundles = s.bundles) :
    WeightsCapped ctx s' ↔ WeightsCapped ctx s := by
  rw [weightsCapped_iff, weightsCapped_iff, same]

@[simp] theorem weightsCapped_updateRange {lr : Nat} {f : LiveRange → LiveRange} :
    WeightsCapped ctx (s.updateRange lr f) ↔ WeightsCapped ctx s := weightsCapped_congr rfl

@[simp] theorem weightsCapped_updateVReg {v : Nat} {f : VRegData → VRegData} :
    WeightsCapped ctx (s.updateVReg v f) ↔ WeightsCapped ctx s := weightsCapped_congr rfl

@[simp] theorem weightsCapped_updatePReg {p : Nat} {f : PRegData → PRegData} :
    WeightsCapped ctx (s.updatePReg p f) ↔ WeightsCapped ctx s := weightsCapped_congr rfl

@[simp] theorem weightsCapped_updateSpillSet {ss : Nat} {f : SpillSet → SpillSet} :
    WeightsCapped ctx (s.updateSpillSet ss f) ↔ WeightsCapped ctx s := weightsCapped_congr rfl

@[simp] theorem weightsCapped_enqueue {bundle prio hint : Nat} :
    WeightsCapped ctx (s.enqueue bundle prio hint) ↔ WeightsCapped ctx s := weightsCapped_congr rfl

@[simp] theorem weightsCapped_createLiverange {range : CodeRange} :
    WeightsCapped ctx (s.createLiverange range).2 ↔ WeightsCapped ctx s := weightsCapped_congr rfl

@[simp] theorem weightsCapped_recomputeRangeProperties {lr : Nat} :
    WeightsCapped ctx (recomputeRangeProperties s lr) ↔ WeightsCapped ctx s :=
  weightsCapped_congr rfl

@[simp] theorem weightsCapped_withRanges {ranges : Nat → LiveRange} :
    WeightsCapped ctx { s with ranges } ↔ WeightsCapped ctx s := weightsCapped_congr rfl

@[simp] theorem weightsCapped_withSpilled {spilledBundles : List Nat} :
    WeightsCapped ctx { s with spilledBundles } ↔ WeightsCapped ctx s := weightsCapped_congr rfl

@[simp] theorem weightsCapped_withQueue {allocationQueue : List PrioQueueEntry} :
    WeightsCapped ctx { s with allocationQueue } ↔ WeightsCapped ctx s := weightsCapped_congr rfl

@[simp] theorem weightsCapped_updateBundle {y : Nat} {f : LiveBundle → LiveBundle}
    (keeps : ∀ b, (f b).minimal = b.minimal ∧ (f b).spillWeight = b.spillWeight) :
    WeightsCapped ctx (s.updateBundle y f) ↔ WeightsCapped ctx s := by
  have same : ∀ b, (f b).Capped ctx ↔ b.Capped ctx := fun b => by
    simp only [LiveBundle.Capped, (keeps b).1, (keeps b).2]
  rw [weightsCapped_iff, weightsCapped_iff]
  refine forall_congr' fun x => ?_
  by_cases here : x = y
  · subst here; simp [same]
  · simp [here]

@[simp] theorem weightsCapped_createBundle (capped : WeightsCapped ctx s) :
    WeightsCapped ctx s.createBundle.2 := by
  rw [weightsCapped_iff] at capped ⊢
  intro x
  rw [Env.createBundle_bundles]
  split
  · exact ⟨fun minimal => absurd minimal Bool.false_ne_true, fun _ => Nat.zero_le _⟩
  · exact capped x

@[simp] theorem weightsCapped_assignBundle {bundle reg : Nat} :
    WeightsCapped ctx (assignBundle s bundle reg) ↔ WeightsCapped ctx s := by
  simp [assignBundle]

@[simp] theorem weightsCapped_evictBundle {x : Nat} :
    WeightsCapped ctx (evictBundle ctx s x) ↔ WeightsCapped ctx s := by
  unfold evictBundle
  split <;> simp

@[simp] theorem weightsCapped_evictAll :
    ∀ (bundles : List Nat) (s : Env), WeightsCapped ctx (evictAll ctx s bundles) ↔ WeightsCapped ctx s
  | [], _ => Iff.rfl
  | x :: rest, s => (weightsCapped_evictAll rest (evictBundle ctx s x)).trans weightsCapped_evictBundle

@[simp] theorem weightsCapped_moveToSpillBundle {bundle spill : Nat} :
    WeightsCapped ctx (moveToSpillBundle s bundle spill) ↔ WeightsCapped ctx s := by
  simp (disch := simp) only [moveToSpillBundle, foldl_setOwner, weightsCapped_updateBundle,
    weightsCapped_withRanges]

theorem getOrCreateSpillBundle_capped (capped : WeightsCapped ctx s) (bundle : Nat)
    (create : Bool) : WeightsCapped ctx (getOrCreateSpillBundle s bundle create).2 := by
  simp only [getOrCreateSpillBundle]
  split
  · exact capped
  · split
    · simp (disch := simp) only [weightsCapped_withSpilled, weightsCapped_updateBundle,
        weightsCapped_updateSpillSet]
      exact weightsCapped_createBundle capped
    · exact capped

end Writes

section Split

theorem bind_eq_ok {ε α β : Type} {x : Except ε α} {f : α → Except ε β} {b : β}
    (run : x.bind f = .ok b) : ∃ a, x = .ok a ∧ f a = .ok b := by
  cases x with
  | error => cases run
  | ok a => exact ⟨a, rfl, run⟩

variable {ctx : Ctx} {s s' : Env} {bundle : Nat}

theorem splitStraddle_capped {last point : Nat} {l list : List LiveRangeListEntry}
    (capped : WeightsCapped ctx s) (run : splitStraddle s bundle last point l = .ok (s', list)) :
    WeightsCapped ctx s' := by
  cases l with
  | nil => cases run
  | cons head tail =>
    simp only [splitStraddle] at run
    split at run
    · split at run
      · split at run
        · cases run
        · cases run
          simp (disch := simp) only [weightsCapped_updateVReg, weightsCapped_updateBundle,
            weightsCapped_updateRange, weightsCapped_recomputeRangeProperties,
            weightsCapped_createLiverange]
          exact capped
      · cases run
    · cases run; exact capped

theorem moveToNewBundle_capped (capped : WeightsCapped ctx s) (spillset : Nat)
    (list : List LiveRangeListEntry) : WeightsCapped ctx (moveToNewBundle s spillset list).2 := by
  simp (disch := simp) only [moveToNewBundle, foldl_setOwner, weightsCapped_updateBundle,
    weightsCapped_withRanges]
  exact weightsCapped_createBundle capped

theorem cutTail_capped {spill split rangeEnd : Nat} {vreg : Option Nat}
    (capped : WeightsCapped ctx s) (cut : cutTail s bundle spill split rangeEnd vreg = .ok s') :
    WeightsCapped ctx s' := by
  simp only [cutTail] at cut
  split at cut
  · cases cut
  · split at cut
    · cases cut
    · cases cut
      simp (disch := simp) only [weightsCapped_updateVReg, weightsCapped_updateRange,
        weightsCapped_updateBundle, weightsCapped_createLiverange]
      exact capped

theorem cutHead_capped {spill split rangeStart : Nat} {vreg : Option Nat}
    (capped : WeightsCapped ctx s) (cut : cutHead s bundle spill split rangeStart vreg = .ok s') :
    WeightsCapped ctx s' := by
  simp only [cutHead] at cut
  split at cut
  · cases cut
  · split at cut
    · cases cut
    · cases cut
      simp (disch := simp) only [weightsCapped_updateVReg, weightsCapped_updateRange,
        weightsCapped_updateBundle, weightsCapped_createLiverange]
      exact capped

theorem trimTail_capped : ∀ (fuel : Nat) (s : Env), WeightsCapped ctx s →
    trimTail s bundle fuel = .ok s' → WeightsCapped ctx s'
  | 0, _, _, run => by cases run
  | fuel + 1, s, capped, run => by
    have spill := getOrCreateSpillBundle_capped capped bundle true
    simp only [trimTail] at run
    split at run
    · cases run; exact capped
    · split at run
      · split at run
        · cases run
        · rename_i found
          rw [found] at spill
          exact trimTail_capped fuel _ (by simpa using spill) run
      · split at run
        · split at run
          · cases run
          · rename_i found
            rw [found] at spill
            exact cutTail_capped spill run
        · cases run; exact capped

theorem trimHead_capped : ∀ (fuel : Nat) (s : Env), WeightsCapped ctx s →
    trimHead s bundle fuel = .ok s' → WeightsCapped ctx s'
  | 0, _, _, run => by cases run
  | fuel + 1, s, capped, run => by
    have spill := getOrCreateSpillBundle_capped capped bundle true
    simp only [trimHead] at run
    split at run
    · cases run; exact capped
    · split at run
      · cases run; exact capped
      · split at run
        · split at run
          · cases run
          · rename_i found
            rw [found] at spill
            exact trimHead_capped fuel _ (by simpa using spill) run
        · split at run
          · split at run
            · cases run
            · rename_i found
              rw [found] at spill
              exact cutHead_capped spill run
          · cases run; exact capped

theorem requeueIfNonempty_capped {regHint : Nat} (capped : WeightsCapped ctx s)
    (run : requeueIfNonempty ctx s bundle regHint = .ok s') : WeightsCapped ctx s' := by
  unfold requeueIfNonempty at run
  split at run
  · split at run
    · cases run
    · cases run; simpa using recomputeBundleProperties_weightsCapped capped ‹_›
  · cases run; exact capped

theorem splitAndRequeueBundle_capped {splitAt regHint : Nat} (capped : WeightsCapped ctx s)
    (split : splitAndRequeueBundle ctx s bundle splitAt regHint = .ok s') :
    WeightsCapped ctx s' := by
  cases firstEntry : (s.bundles bundle).ranges.head? with
  | none => simp [splitAndRequeueBundle, firstEntry] at split
  | some first =>
    cases lastEntry : (s.bundles bundle).ranges.getLast? with
    | none => simp [splitAndRequeueBundle, firstEntry, lastEntry] at split
    | some last =>
      simp only [splitAndRequeueBundle, firstEntry, lastEntry, bind] at split
      obtain ⟨⟨s₁, list⟩, straddled, split⟩ := bind_eq_ok split
      obtain ⟨s₂, tailTrimmed, split⟩ := bind_eq_ok split
      obtain ⟨s₃, headTrimmed, split⟩ := bind_eq_ok split
      obtain ⟨s₄, requeued, split⟩ := bind_eq_ok split
      have cut := splitStraddle_capped (by simpa using capped) straddled
      have trimmed := trimHead_capped _ _
        (trimTail_capped _ _ (moveToNewBundle_capped cut _ _) tailTrimmed) headTrimmed
      exact requeueIfNonempty_capped (requeueIfNonempty_capped trimmed requeued) split

end Split

section Run

variable {ctx : Ctx} {s s' : Env} {b : Nat}

theorem WeightsCapped.probeDone (capped : WeightsCapped ctx s) (done : ProbeDone ctx s b s') :
    WeightsCapped ctx s' := by
  cases done with
  | split _ _ split => exact splitAndRequeueBundle_capped capped split
  | allocated => simpa using capped

theorem WeightsCapped.processed (capped : WeightsCapped ctx s) (processed : Processed ctx s b s') :
    WeightsCapped ctx s' := by
  cases processed with
  | attempt done =>
    cases done with
    | probed done => exact capped.probeDone done
    | required | spilled => simpa using capped
  | retry _ _ done => exact WeightsCapped.probeDone (by simpa using capped) done
  | moveToSpill => simpa using capped

theorem WeightsCapped.step (cfg : CfgWellFormed ctx) (contract : ConflictsInside ctx)
    (inv : AllocInv s) (capped : WeightsCapped ctx s) (step : Step ctx s s') :
    WeightsCapped ctx s' := by
  obtain ⟨queued, processed⟩ := step
  obtain ⟨inv₀, pending⟩ := inv.dequeue queued
  exact WeightsCapped.processed (by simpa using capped) (inv₀.outcome cfg contract pending processed)

end Run

section Results

variable {ctx : Ctx} {s s' : Env}

/-- In every state a run of `process_bundles` reaches from one satisfying the run invariant and
the caps, whatever entry each step takes from the queue, every minimal bundle weighs at least
`MINIMAL_BUNDLE_SPILL_WEIGHT` and every other bundle at most `BUNDLE_MAX_NORMAL_SPILL_WEIGHT`:
splits, hand-overs to the spill bundle, evictions and assignments never break the caps. -/
theorem reachable_weights_capped (cfg : CfgWellFormed ctx) (contract : ConflictsInside ctx)
    (inv : AllocInv s) (capped : WeightsCapped ctx s) (reach : Reachable ctx s s') :
    WeightsCapped ctx s' := by
  induction reach with
  | refl => exact capped
  | tail reached step capped' =>
    exact capped'.step cfg contract (inv.reachable cfg contract reached) step

theorem conflictExample_weightsCapped : WeightsCapped fixedCtx conflictExample :=
  weightsCapped_iff.mpr fun x => by
    match x with
    | 0 | 1 => exact ⟨fun minimal => absurd minimal Bool.false_ne_true, fun _ => by decide⟩
    | _ + 2 => exact ⟨fun minimal => absurd minimal Bool.false_ne_true, fun _ => Nat.zero_le _⟩

theorem conflictExample_weights_capped :
    CfgWellFormed fixedCtx ∧ ConflictsInside fixedCtx ∧ AllocInv conflictExample ∧
      WeightsCapped fixedCtx conflictExample ∧ Reachable fixedCtx conflictExample conflictExampleDone ∧
      WeightsCapped fixedCtx conflictExampleDone :=
  ⟨fixedCtx_cfgWellFormed, fixedCtx_conflictsInside, conflictExample_allocInv,
    conflictExample_weightsCapped, conflictExample_reaches, reachable_weights_capped
      fixedCtx_cfgWellFormed fixedCtx_conflictsInside conflictExample_allocInv
      conflictExample_weightsCapped conflictExample_reaches⟩

end Results

end IonRegalloc
