import Mathlib.Algebra.Order.BigOperators.Group.Finset
import Mathlib.Algebra.BigOperators.Ring
import IonRegalloc.Proof.Aborts

/-! Termination of `process_bundles` from a state satisfying `AllocInv`, by a lexicographic
measure: `splitMeasure` for splits and hand-overs, `evictMeasure` for assignments after
evictions, and the queue's length for the rest. -/

namespace IonRegalloc

/-- The program points a bundle's ranges cover. -/
def coveredPoints (s : Env) (x : Nat) : Nat := (entryPoints (s.bundles x).ranges).length

/-- A bundle's share of `splitMeasure`: the square of the points an allocatable bundle covers, so
a split, whose halves cover fewer points each and no more together, lowers the sum. -/
def splitShare (s : Env) (x : Nat) : Nat := if Allocatable s x then coveredPoints s x ^ 2 else 0

def splitMeasure (s : Env) : Nat := ∑ x ∈ Finset.range s.numBundles, splitShare s x

/-- A bundle's share of `evictMeasure`: `(numBundles + 1) ^ weight` for an unallocated bundle, so
bundles strictly lighter than an assigned one count less than it together. -/
def evictShare (s : Env) (x : Nat) : Nat :=
  if (s.bundles x).allocation = .none then (s.numBundles + 1) ^ bundleSpillWeight s x else 0

def evictMeasure (s : Env) : Nat := ∑ x ∈ Finset.range s.numBundles, evictShare s x

def runMeasure (s : Env) : Nat × Nat × Nat :=
  (splitMeasure s, evictMeasure s, s.allocationQueue.length)

/-- The lexicographic order `runMeasure` decreases in. -/
def MeasureLt : Nat × Nat × Nat → Nat × Nat × Nat → Prop :=
  Prod.Lex (· < ·) (Prod.Lex (· < ·) (· < ·))

theorem measureLt_wf : WellFounded MeasureLt :=
  WellFounded.prod_lex Nat.lt_wfRel.wf (WellFounded.prod_lex Nat.lt_wfRel.wf Nat.lt_wfRel.wf)

section Sums

theorem sum_eq_pair_add {M : Type} [AddCommMonoid M] {S : Finset Nat} {f : Nat → M} {x y : Nat}
    (inX : x ∈ S) (inY : y ∈ S) (apart : x ≠ y) :
    ∑ z ∈ S, f z = f x + f y + ∑ z ∈ (S.erase x).erase y, f z := by
  rw [← Finset.add_sum_erase S f inX,
    ← Finset.add_sum_erase _ f (Finset.mem_erase.mpr ⟨Ne.symm apart, inY⟩), add_assoc]

theorem sum_lt_of_pair {S : Finset Nat} {f g : Nat → Nat} {x y : Nat} (inX : x ∈ S) (inY : y ∈ S)
    (apart : x ≠ y) (others : ∀ z ∈ S, z ≠ x → z ≠ y → f z ≤ g z)
    (pair : f x + f y < g x + g y) : ∑ z ∈ S, f z < ∑ z ∈ S, g z := by
  rw [sum_eq_pair_add inX inY apart, sum_eq_pair_add inX inY apart]
  have rest : ∑ z ∈ (S.erase x).erase y, f z ≤ ∑ z ∈ (S.erase x).erase y, g z :=
    Finset.sum_le_sum fun z member =>
      others z (Finset.mem_of_mem_erase (Finset.mem_of_mem_erase member))
        (Finset.ne_of_mem_erase (Finset.mem_of_mem_erase member)) (Finset.ne_of_mem_erase member)
  omega

theorem sq_add_sq_lt {a c n : Nat} (total : a + c ≤ n) (ltA : a < n) (ltC : c < n) :
    a ^ 2 + c ^ 2 < n ^ 2 := by
  rcases Nat.eq_zero_or_pos a with rfl | posA
  · simpa using Nat.pow_lt_pow_left ltC two_ne_zero
  rcases Nat.eq_zero_or_pos c with rfl | posC
  · simpa using Nat.pow_lt_pow_left ltA two_ne_zero
  have cross : 0 < 2 * a * c := Nat.mul_pos (Nat.mul_pos two_pos posA) posC
  calc a ^ 2 + c ^ 2 < (a + c) ^ 2 := by rw [add_sq]; omega
    _ ≤ n ^ 2 := Nat.pow_le_pow_left total 2

end Sums

section Points

variable {s : Env} {l : List LiveRangeListEntry} {p : Nat}

theorem mem_entryPoints : p ∈ entryPoints l ↔ ∃ e ∈ l, e.range.from ≤ p ∧ p < e.range.to := by
  simp only [entryPoints, List.mem_flatMap, List.mem_range'_1, CodeRange.len]
  exact exists_congr fun e => and_congr_right fun _ =>
    ⟨fun ⟨lower, upper⟩ => ⟨lower, by omega⟩, fun ⟨lower, upper⟩ => ⟨lower, by omega⟩⟩

theorem AllocInv.wide (inv : AllocInv s) {b : Nat} (pending : Pending s b)
    {e : LiveRangeListEntry} (member : e ∈ (s.bundles b).ranges) : e.range.from < e.range.to := by
  simpa using KeysSorted.nonempty (inv.ready b pending.allocatable).1.sorted e member

theorem coveredPoints_pos (inv : AllocInv s) {b : Nat} (pending : Pending s b) :
    0 < coveredPoints s b := by
  obtain ⟨first, rest, whole⟩ := List.exists_cons_of_ne_nil pending.nonempty
  have member : first ∈ (s.bundles b).ranges := whole ▸ List.mem_cons_self _ _
  exact List.length_pos_of_mem
    (mem_entryPoints.mpr ⟨first, member, le_rfl, inv.wide pending member⟩)

section Halves

variable {origin : Env} {bundle newBundle spillset point : Nat} {added : List LiveRangeListEntry}

theorem SplitInv.keptPoints_lt (halves : SplitInv origin s bundle newBundle spillset point added)
    (member : p ∈ entryPoints (s.bundles bundle).ranges) : p < point := by
  obtain ⟨e, kept, -, upper⟩ := mem_entryPoints.mp member
  have := halves.keptBefore e kept; omega

theorem SplitInv.point_le_movedPoints
    (halves : SplitInv origin s bundle newBundle spillset point added)
    (member : p ∈ entryPoints (s.bundles newBundle).ranges) : point ≤ p := by
  obtain ⟨e, moved, lower, -⟩ := mem_entryPoints.mp member
  have := halves.movedAfter e moved; omega

end Halves

theorem splitShare_le (s : Env) (x : Nat) : splitShare s x ≤ coveredPoints s x ^ 2 := by
  unfold splitShare; split <;> omega

theorem splitShare_of_le {x : Nat} (le : s.numBundles ≤ x) : splitShare s x = 0 :=
  if_neg fun allocatable => absurd allocatable.1 (by omega)

theorem splitMeasure_eq_sum {n : Nat} (le : s.numBundles ≤ n) :
    splitMeasure s = ∑ x ∈ Finset.range n, splitShare s x :=
  Finset.sum_subset (Finset.range_subset.mpr le) fun _ _ outside =>
    splitShare_of_le (by simpa using outside)

end Points

section Shape

variable {ctx : Ctx} {s s' : Env}

theorem SameShape.trans {s'' : Env} (first : SameShape s s') (second : SameShape s' s'') :
    SameShape s s'' where
  ranges := second.ranges.trans first.ranges
  numRanges := second.numRanges.trans first.numRanges
  numBundles := second.numBundles.trans first.numBundles
  spillBundle ss := (second.spillBundle ss).trans (first.spillBundle ss)
  bundles x := ⟨(second.bundles x).1.trans (first.bundles x).1,
    (second.bundles x).2.1.trans (first.bundles x).2.1,
    (second.bundles x).2.2.trans (first.bundles x).2.2⟩

theorem SameShape.splitMeasure_eq (shape : SameShape s s') : splitMeasure s' = splitMeasure s := by
  unfold splitMeasure splitShare coveredPoints
  simp only [shape.allocatable, (shape.bundles _).1, shape.numBundles]

theorem sameShape_evictAll (ctx : Ctx) :
    ∀ (bundles : List Nat) (s : Env), SameShape s (evictAll ctx s bundles)
  | [], _ => ⟨rfl, rfl, rfl, fun _ => rfl, fun _ => ⟨rfl, rfl, rfl⟩⟩
  | x :: rest, s => (sameShape_evictBundle ctx s x).trans (sameShape_evictAll ctx rest _)

theorem sameShape_updateSpillSet {ss : Nat} {f : SpillSet → SpillSet}
    (keeps : (f (s.spillsets ss)).spillBundle = (s.spillsets ss).spillBundle) :
    SameShape s (s.updateSpillSet ss f) :=
  ⟨rfl, rfl, rfl, fun x => by by_cases here : x = ss <;> simp [here, keeps],
    fun _ => ⟨rfl, rfl, rfl⟩⟩

theorem evictBundle_bundles_ne {x y : Nat} (other : x ≠ y) :
    (evictBundle ctx s y).bundles x = s.bundles x := by
  unfold evictBundle; split
  · rfl
  · simp [other]

theorem evictAll_bundles_not_mem {x : Nat} : ∀ (bundles : List Nat) (s : Env), x ∉ bundles →
    (evictAll ctx s bundles).bundles x = s.bundles x
  | [], _, _ => rfl
  | y :: rest, s, outside => by
    rw [List.mem_cons, not_or] at outside
    exact (evictAll_bundles_not_mem rest _ outside.2).trans (evictBundle_bundles_ne outside.1)

end Shape

section Evict

variable {ctx : Ctx} {s s' : Env} {b : Nat}

/-- `evictMeasure` drops when an unallocated bundle is assigned and the bundles freed meanwhile
are strictly lighter: each weighs at most a `numBundles + 1`-th of it. -/
theorem evictMeasure_lt {evicted : List Nat} (numBundles : s'.numBundles = s.numBundles)
    (bound : b < s.numBundles) (weights : ∀ x, bundleSpillWeight s' x = bundleSpillWeight s x)
    (unallocated : (s.bundles b).allocation = .none) (assigned : (s'.bundles b).allocation ≠ .none)
    (freed : ∀ x, x ≠ b → (s'.bundles x).allocation = .none →
      (s.bundles x).allocation = .none ∨ x ∈ evicted)
    (lighter : ∀ x ∈ evicted, bundleSpillWeight s x < bundleSpillWeight s b) :
    evictMeasure s' < evictMeasure s := by
  have base : 0 < s.numBundles + 1 := Nat.succ_pos _
  have pointwise : ∀ x ∈ Finset.range s.numBundles,
      (s.numBundles + 1) * evictShare s' x +
          (if x = b then (s.numBundles + 1) * (s.numBundles + 1) ^ bundleSpillWeight s b else 0) ≤
        (s.numBundles + 1) * evictShare s x +
          (if x ∈ evicted then (s.numBundles + 1) ^ bundleSpillWeight s b else 0) := by
    intro x _
    unfold evictShare
    rw [numBundles, weights]
    by_cases here : x = b
    · subst here; simp [unallocated, assigned]
    by_cases free' : (s'.bundles x).allocation = .none
    · rcases freed x here free' with free | member
      · simp [free', free, here]
      · have heavier : (s.numBundles + 1) * (s.numBundles + 1) ^ bundleSpillWeight s x ≤
            (s.numBundles + 1) ^ bundleSpillWeight s b := by
          rw [← pow_succ']; exact Nat.pow_le_pow_right base (lighter x member)
        simp only [free', here, member, if_true, if_false]
        split <;> omega
    · simp [free', here]
  have summed := Finset.sum_le_sum pointwise
  rw [Finset.sum_add_distrib, Finset.sum_add_distrib, ← Finset.mul_sum, ← Finset.mul_sum,
    Finset.sum_ite_eq', if_pos (Finset.mem_range.mpr bound)] at summed
  have extra : ∑ x ∈ Finset.range s.numBundles,
      (if x ∈ evicted then (s.numBundles + 1) ^ bundleSpillWeight s b else 0) ≤
        s.numBundles * (s.numBundles + 1) ^ bundleSpillWeight s b :=
    calc _ ≤ ∑ _x ∈ Finset.range s.numBundles, (s.numBundles + 1) ^ bundleSpillWeight s b :=
          Finset.sum_le_sum fun x _ => by split <;> omega
      _ = _ := by simp
  have positive := Nat.pos_pow_of_pos (bundleSpillWeight s b) base
  have spread : (s.numBundles + 1) * (s.numBundles + 1) ^ bundleSpillWeight s b =
      s.numBundles * (s.numBundles + 1) ^ bundleSpillWeight s b +
        (s.numBundles + 1) ^ bundleSpillWeight s b := Nat.succ_mul _ _
  unfold evictMeasure
  rw [numBundles]
  exact Nat.lt_of_mul_lt_mul_left (a := s.numBundles + 1) (by omega)

theorem evictMeasure_assign (ctx : Ctx) (pending : Pending s b) (bundles : List Nat)
    (lighter : ∀ x ∈ bundles, bundleSpillWeight s x < bundleSpillWeight s b) (reg ss : Nat)
    (f : SpillSet → SpillSet) :
    evictMeasure ((assignBundle (evictAll ctx s bundles) b reg).updateSpillSet ss f) <
      evictMeasure s := by
  have shape := sameShape_evictAll ctx bundles s
  have assignAt : ∀ x, ((assignBundle (evictAll ctx s bundles) b reg).bundles x) =
      if x = b then { (evictAll ctx s bundles).bundles b with allocation := .reg reg }
      else (evictAll ctx s bundles).bundles x := fun x => by
    by_cases here : x = b <;> simp [assignBundle, here]
  refine evictMeasure_lt shape.numBundles pending.allocatable.1 (fun x => ?_)
    pending.unallocated (by simp [assignAt]) (fun x other free' => ?_) lighter
  · obtain ⟨_, evicted⟩ := evictAll_bundles ctx s bundles x
    simp only [bundleSpillWeight, Env.updateSpillSet_bundles, assignAt]
    split
    · subst_vars; simp [evicted]
    · simp [evicted]
  · simp only [Env.updateSpillSet_bundles, assignAt, if_neg other] at free'
    by_cases member : x ∈ bundles
    · exact .inr member
    · exact .inl (by rwa [evictAll_bundles_not_mem bundles s member] at free')

end Evict

section Split

variable {ctx : Ctx} {s s' : Env} {b : Nat}

/-- Each half of a split covers fewer points than the whole, and the two together no more: the
kept half misses the whole's last point, at or after the split point, and the new half its first
point, before it. -/
theorem AllocInv.split_points (inv : AllocInv s) (pending : Pending s b) {splitAt regHint : Nat}
    (nonMinimal : minimalBundle s b = false) (inside : InsideBundle s b splitAt)
    (split : splitAndRequeueBundle ctx s b splitAt regHint = .ok s') :
    coveredPoints s' b + coveredPoints s' s.numBundles ≤ coveredPoints s b ∧
      coveredPoints s' b < coveredPoints s b ∧
      coveredPoints s' s.numBundles < coveredPoints s b := by
  obtain ⟨s₃, point, added, bounds, halves, -, requeued⟩ :=
    inv.splitFrame pending nonMinimal inside split
  obtain ⟨first, rest, whole⟩ := List.exists_cons_of_ne_nil pending.nonempty
  obtain ⟨last, tail⟩ := Option.ne_none_iff_exists'.mp
    (mt List.getLast?_eq_none_iff.mp pending.nonempty)
  obtain ⟨after, before⟩ := bounds first last (by rw [whole]; rfl) tail
  have firstMember : first ∈ (s.bundles b).ranges := whole ▸ List.mem_cons_self _ _
  have lastMember := List.mem_of_getLast?_eq_some tail
  have firstIn : first.range.from ∈ entryPoints (s.bundles b).ranges :=
    mem_entryPoints.mpr ⟨first, firstMember, le_rfl, inv.wide pending firstMember⟩
  have lastIn : last.range.to - 1 ∈ entryPoints (s.bundles b).ranges := by
    have := inv.wide pending lastMember
    exact mem_entryPoints.mpr ⟨last, lastMember, by omega, by omega⟩
  have pieces := halves.points
  simp only [splitPieces, entryPoints_append] at pieces
  have total := pieces.length_eq
  simp only [List.length_append] at total
  have firstPiece := pieces.symm.subset firstIn
  have lastPiece := pieces.symm.subset lastIn
  simp only [List.mem_append] at firstPiece lastPiece
  rw [coveredPoints, coveredPoints, coveredPoints, (requeued.fields b).1, (requeued.fields _).1]
  refine ⟨by omega, ?_, ?_⟩
  · rcases lastPiece with (kept | moved) | spilled
    · exact absurd (halves.keptPoints_lt kept) (by omega)
    · have := List.length_pos_of_mem moved; omega
    · have := List.length_pos_of_mem spilled; omega
  · rcases firstPiece with (kept | moved) | spilled
    · have := List.length_pos_of_mem kept; omega
    · exact absurd (halves.point_le_movedPoints moved) (by omega)
    · have := List.length_pos_of_mem spilled; omega

/-- A split lowers `splitMeasure`: the split bundle's share gives way to its halves', and every
other allocatable bundle is left alone. -/
theorem splitMeasure_split (inv : AllocInv s) (pending : Pending s b) {splitAt regHint : Nat}
    (nonMinimal : minimalBundle s b = false) (inside : InsideBundle s b splitAt)
    (split : splitAndRequeueBundle ctx s b splitAt regHint = .ok s') :
    splitMeasure s' < splitMeasure s := by
  obtain ⟨s₃, point, added, -, halves, frame, requeued⟩ :=
    inv.splitFrame pending nonMinimal inside split
  obtain ⟨total, keptFewer, movedFewer⟩ := inv.split_points pending nonMinimal inside split
  have spillOf : ∀ sb, (s.spillsets (s.bundles b).spillset).spillBundle = some sb →
      (s.bundles sb).spillset = (s.bundles b).spillset := fun sb found => (inv.spillOf _ sb found).2
  have bound := pending.allocatable.1
  have grown : s.numBundles < s'.numBundles := requeued.numBundles ▸ halves.apart.2.2
  rw [splitMeasure_eq_sum (le_of_lt grown), splitMeasure]
  refine sum_lt_of_pair (Finset.mem_range.mpr (lt_trans bound grown)) (Finset.mem_range.mpr grown)
    (Nat.ne_of_lt bound) (fun x _ kept moved => ?_) ?_
  · unfold splitShare
    by_cases allocatable : Allocatable s x
    · rw [if_pos ((frame.allocatable_iff spillOf kept moved).mpr allocatable), if_pos allocatable,
        coveredPoints, coveredPoints, frame.bundles_of_allocatable spillOf allocatable kept]
    · rw [if_neg (mt (frame.allocatable_iff spillOf kept moved).mp allocatable)]
      exact Nat.zero_le _
  · have shareKept := splitShare_le s' b
    have shareMoved := splitShare_le s' s.numBundles
    have whole : splitShare s b = coveredPoints s b ^ 2 := if_pos pending.allocatable
    have fresh : splitShare s s.numBundles = 0 := splitShare_of_le le_rfl
    have := sq_add_sq_lt total keptFewer movedFewer
    omega

/-- Handing a pending bundle's ranges to its spill bundle lowers `splitMeasure`: the bundle is
left covering nothing, and the spill bundle is not allocatable. -/
theorem splitMeasure_moveToSpill (inv : AllocInv s) (pending : Pending s b) {spill : Nat}
    (found : (s.spillsets (s.bundles b).spillset).spillBundle = some spill) :
    splitMeasure (moveToSpillBundle s b spill) < splitMeasure s := by
  have apart : spill ≠ b := fun same => pending.allocatable.2 (same ▸ found)
  obtain ⟨-, -, numBundles, -, spillsets, -⟩ := moveToSpillBundle_frame s b spill
  have spillset : ∀ x, ((moveToSpillBundle s b spill).bundles x).spillset =
      (s.bundles x).spillset := fun x => by
    rw [moveToSpillBundle_bundles apart]; split_ifs <;> subst_vars <;> rfl
  have allocatable : ∀ x, Allocatable (moveToSpillBundle s b spill) x ↔ Allocatable s x :=
    fun x => by simp only [Allocatable, numBundles, spillsets, spillset]
  have notSpill : ¬ Allocatable s spill := fun allocatable =>
    allocatable.2 (by rw [(inv.spillOf _ spill found).2]; exact found)
  unfold splitMeasure
  rw [numBundles]
  refine Finset.sum_lt_sum (fun x _ => ?_) ⟨b, Finset.mem_range.mpr pending.allocatable.1, ?_⟩
  · unfold splitShare
    by_cases allocatableX : Allocatable s x
    · rw [if_pos ((allocatable x).mpr allocatableX), if_pos allocatableX, coveredPoints,
        coveredPoints, moveToSpillBundle_bundles apart]
      split_ifs with here
      · exact absurd (here ▸ allocatableX) notSpill
      · simp
      · exact le_rfl
    · rw [if_neg (mt (allocatable x).mp allocatableX)]
      exact Nat.zero_le _
  · have := coveredPoints_pos inv pending
    simp only [splitShare, allocatable, if_pos pending.allocatable, coveredPoints,
      moveToSpillBundle_bundles apart, if_neg (Ne.symm apart), if_true]
    simpa using pow_pos this 2

end Split

section Run

variable {ctx : Ctx} {s s' : Env} {b : Nat}

/-- What each outcome of `process_bundle` does to the measure: a split or a hand-over lowers
`splitMeasure`; an assignment, after an eviction or not, keeps it and lowers `evictMeasure`;
marking the bundle keeps both and the queue. -/
theorem AllocInv.processed_lower (inv : AllocInv s) (pending : Pending s b)
    (processed : Processed ctx s b s') :
    splitMeasure s' < splitMeasure s ∨ splitMeasure s' = splitMeasure s ∧
      (evictMeasure s' < evictMeasure s ∨
        evictMeasure s' = evictMeasure s ∧ s'.allocationQueue = s.allocationQueue) := by
  cases processed with
  | attempt done =>
    cases done with
    | probed done =>
      cases done with
      | split nonMinimal inside split =>
        exact .inl (splitMeasure_split inv pending nonMinimal inside split)
      | allocated =>
        exact .inr ⟨((sameShape_assignBundle s b _).trans
          (sameShape_updateSpillSet rfl)).splitMeasure_eq,
          .inl (evictMeasure_assign ctx pending [] (by simp) _ _ _)⟩
    | required => exact .inr ⟨(sameShape_updateSpillSet rfl).splitMeasure_eq, .inr ⟨rfl, rfl⟩⟩
    | spilled => exact .inr ⟨rfl, .inr ⟨rfl, rfl⟩⟩
  | @retry bundles _ _ lighter done =>
    obtain ⟨inv', pending'⟩ := evictAll_inv bundles s inv pending
    have evicted := sameShape_evictAll ctx bundles s
    cases done with
    | split nonMinimal inside split =>
      exact .inl (evicted.splitMeasure_eq ▸ splitMeasure_split inv' pending' nonMinimal inside split)
    | allocated =>
      exact .inr ⟨((evicted.trans (sameShape_assignBundle _ b _)).trans
        (sameShape_updateSpillSet rfl)).splitMeasure_eq,
        .inl (evictMeasure_assign ctx pending _ lighter _ _ _)⟩
  | moveToSpill found => exact .inl (splitMeasure_moveToSpill inv pending found)

/-- Every step from a state satisfying the run invariant lowers the measure: taking the entry
out of the queue shortens it, and the outcome does the rest. -/
theorem Step.lower (cfg : CfgWellFormed ctx) (contract : ConflictsInside ctx) (inv : AllocInv s)
    (step : Step ctx s s') : MeasureLt (runMeasure s') (runMeasure s) := by
  obtain ⟨queued, processed⟩ := step
  obtain ⟨inv₀, pending⟩ := inv.dequeue queued
  have shorter := List.length_erase_of_mem queued
  have := List.length_pos_of_mem queued
  rcases inv₀.processed_lower pending (inv₀.outcome cfg contract pending processed) with
    lower | ⟨same, lower | ⟨same', queue⟩⟩
  · exact .left _ _ lower
  · exact Prod.lex_def.mpr (.inr ⟨same, .left _ _ lower⟩)
  · exact Prod.lex_def.mpr (.inr ⟨same, Prod.lex_def.mpr (.inr ⟨same', by
      simp only [runMeasure, queue, shorter]; omega⟩)⟩)

theorem AllocInv.acc (cfg : CfgWellFormed ctx) (contract : ConflictsInside ctx)
    (inv : AllocInv s) : Acc (fun s' s => Step ctx s s') s := by
  have acc := (InvImage.wf runMeasure measureLt_wf).apply s
  revert inv
  induction acc with
  | intro s _ ih =>
    exact fun inv => ⟨_, fun s' step => ih s' (step.lower cfg contract inv) (inv.step cfg contract step)⟩

theorem processBundles_more_fuel (more : Nat) : ∀ (fuel : Nat) (s : Env),
    processBundles ctx fuel s ≠ .error .diverge →
      processBundles ctx (fuel + more) s = processBundles ctx fuel s
  | 0, _, diverged => absurd rfl diverged
  | fuel + 1, s, returned => by
    rw [Nat.add_right_comm]
    unfold processBundles at returned ⊢
    split at returned
    · rfl
    · split at returned
      · rfl
      · exact processBundles_more_fuel more fuel _ returned

/-- With enough fuel the loop returns with the queue empty or one of the two aborts on a minimal
bundle, by induction on the accessibility of the state. -/
theorem processBundles_ends (cfg : CfgWellFormed ctx) (contract : ConflictsInside ctx)
    (inv : AllocInv s) :
    ∃ fuel, (∃ s', processBundles ctx fuel s = .ok s' ∧ s'.allocationQueue = []) ∨
      ∃ e, processBundles ctx fuel s = .error e ∧ MinimalAbort e := by
  have acc := inv.acc cfg contract
  revert inv
  induction acc with
  | intro s _ ih =>
    intro inv
    cases popped : popQueue s.allocationQueue with
    | none => exact ⟨1, .inl ⟨s, by simp [processBundles, popped], popQueue_none popped⟩⟩
    | some next =>
      obtain ⟨entry, queue⟩ := next
      obtain ⟨queued, rfl⟩ := popQueue_some popped
      obtain ⟨inv₀, pending⟩ := inv.dequeue queued
      cases processed : processBundle ctx { s with allocationQueue := s.allocationQueue.erase entry }
          entry.bundle entry.regHint with
      | error e =>
        exact ⟨1, .inr ⟨e, by simp [processBundles, popped, processed],
          processBundleWith_aborts cfg contract inv₀ pending processed⟩⟩
      | ok s₁ =>
        have step : Step ctx s s₁ := ⟨queued, processed⟩
        obtain ⟨fuel, ends⟩ := ih s₁ step (inv.step cfg contract step)
        exact ⟨fuel + 1, by simpa [processBundles, popped, processed] using ends⟩

end Run

section Results

variable {ctx : Ctx} {s : Env}

/-- From a state satisfying the run invariant there is no infinite run of `process_bundle`
steps, whatever entry each step takes from the queue: no cycle of splits, evictions and
requeues goes on forever. -/
theorem runs_finite (cfg : CfgWellFormed ctx) (contract : ConflictsInside ctx)
    (inv : AllocInv s) :
    ¬ ∃ run : Nat → Env, run 0 = s ∧ ∀ i, Step ctx (run i) (run (i + 1)) := by
  have acc := inv.acc cfg contract
  clear inv
  induction acc with
  | intro s _ ih =>
    rintro ⟨run, rfl, steps⟩
    exact ih (run 1) (steps 0) ⟨fun i => run (i + 1), rfl, fun i => steps (i + 1)⟩

theorem conflictExample_runs_finite :
    CfgWellFormed fixedCtx ∧ ConflictsInside fixedCtx ∧ AllocInv conflictExample ∧
      ¬ ∃ run : Nat → Env, run 0 = conflictExample ∧ ∀ i, Step fixedCtx (run i) (run (i + 1)) :=
  ⟨fixedCtx_cfgWellFormed, fixedCtx_conflictsInside, conflictExample_allocInv,
    runs_finite fixedCtx_cfgWellFormed fixedCtx_conflictsInside conflictExample_allocInv⟩

/-- `process_bundles` terminates from every state satisfying the run invariant: past some bound
on its iterations, it returns `Ok` with the queue empty, or `TooManyLiveRegs`, or the
minimal-bundle panic, the same for every larger bound. -/
theorem processBundles_terminates (cfg : CfgWellFormed ctx) (contract : ConflictsInside ctx)
    (inv : AllocInv s) :
    ∃ bound, (∀ fuel, bound ≤ fuel → processBundles ctx fuel s = processBundles ctx bound s) ∧
      ((∃ s', processBundles ctx bound s = .ok s' ∧ s'.allocationQueue = []) ∨
        processBundles ctx bound s = .error .tooManyLiveRegs ∨
        processBundles ctx bound s = .error (.panic minimalBundlePanic)) := by
  obtain ⟨bound, ends⟩ := processBundles_ends cfg contract inv
  have returned : processBundles ctx bound s ≠ .error .diverge := by
    rcases ends with ⟨s', returned, -⟩ | ⟨e, aborted, rfl | rfl⟩ <;> simp [*]
  refine ⟨bound, fun fuel enough => ?_, ?_⟩
  · obtain ⟨more, rfl⟩ := Nat.exists_eq_add_of_le enough
    exact processBundles_more_fuel more bound s returned
  · rcases ends with ends | ⟨e, aborted, rfl | rfl⟩
    exacts [.inl ends, .inr (.inl aborted), .inr (.inr aborted)]

theorem conflictExample_terminates :
    CfgWellFormed fixedCtx ∧ ConflictsInside fixedCtx ∧ AllocInv conflictExample ∧
      ∃ bound, (∀ fuel, bound ≤ fuel →
          processBundles fixedCtx fuel conflictExample = processBundles fixedCtx bound conflictExample) ∧
        ((∃ s', processBundles fixedCtx bound conflictExample = .ok s' ∧ s'.allocationQueue = []) ∨
          processBundles fixedCtx bound conflictExample = .error .tooManyLiveRegs ∨
          processBundles fixedCtx bound conflictExample = .error (.panic minimalBundlePanic)) :=
  ⟨fixedCtx_cfgWellFormed, fixedCtx_conflictsInside, conflictExample_allocInv,
    processBundles_terminates fixedCtx_cfgWellFormed fixedCtx_conflictsInside conflictExample_allocInv⟩

end Results

end IonRegalloc
