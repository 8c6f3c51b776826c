import IonRegalloc.Proof.Termination

/-! The program points and uses the bundles' ranges hold, with repeats, are the same in every
state a run reaches; the argument is made once for any tally kept by the split's surgery. -/

namespace IonRegalloc

/-- What the conservation argument needs of a tally `P` of range lists. -/
structure RangeTally {α : Type} (P : Env → List LiveRangeListEntry → Multiset α) : Prop where
  nil : ∀ s, P s [] = 0
  append : ∀ s l l', P s (l ++ l') = P s l + P s l'
  congr : ∀ s s' l, (∀ e ∈ l, (s'.ranges e.index).uses = (s.ranges e.index).uses) → P s' l = P s l
  surgery : ∀ {origin s bundle newBundle spillset point added},
    SplitInv origin s bundle newBundle spillset point added →
    P s (splitPieces s bundle newBundle added) = P origin (origin.bundles bundle).ranges

/-- What the arena's bundles hold of `P`, with repeats. -/
def heldBy {α : Type} (P : Env → List LiveRangeListEntry → Multiset α) (s : Env) : Multiset α :=
  ∑ x ∈ Finset.range s.numBundles, P s (s.bundles x).ranges

/-- The program points the bundles' ranges cover, with repeats. -/
def pointsHeld (s : Env) : Multiset Nat := heldBy (fun _ l => (entryPoints l : Multiset Nat)) s

/-- The uses of the live ranges the bundles list, with repeats. -/
def usesHeld (s : Env) : Multiset Use := heldBy (fun s l => (entryUses s l : Multiset Use)) s

/-- What bundle `x` of `s` holds of `P`; nothing past the arena. -/
def heldAt {α : Type} (P : Env → List LiveRangeListEntry → Multiset α) (s : Env) (x : Nat) :
    Multiset α :=
  if x < s.numBundles then P s (s.bundles x).ranges else 0

theorem pointsTally : RangeTally fun _ l => (entryPoints l : Multiset Nat) where
  nil _ := rfl
  append _ l l' := by simp
  congr _ _ _ _ := rfl
  surgery halves := Multiset.coe_eq_coe.mpr halves.points

theorem usesTally : RangeTally fun s l => (entryUses s l : Multiset Use) where
  nil _ := rfl
  append _ l l' := by simp
  congr _ _ _ same := by rw [entryUses_congr same]
  surgery halves := Multiset.coe_eq_coe.mpr halves.uses

section Held

variable {α : Type} {P : Env → List LiveRangeListEntry → Multiset α} {s : Env} {x : Nat}

theorem heldAt_of_lt (lt : x < s.numBundles) : heldAt P s x = P s (s.bundles x).ranges := if_pos lt

theorem heldAt_of_le (le : s.numBundles ≤ x) : heldAt P s x = 0 := if_neg (Nat.not_lt.mpr le)

theorem heldBy_eq_sum {n : Nat} (le : s.numBundles ≤ n) :
    heldBy P s = ∑ x ∈ Finset.range n, heldAt P s x :=
  calc heldBy P s = ∑ x ∈ Finset.range s.numBundles, heldAt P s x :=
        Finset.sum_congr rfl fun _ inRange => (heldAt_of_lt (Finset.mem_range.mp inRange)).symm
    _ = _ := Finset.sum_subset (Finset.range_subset.mpr le) fun _ _ outside =>
        heldAt_of_le (by simpa using outside)

end Held

section Steps

variable {α : Type} {P : Env → List LiveRangeListEntry → Multiset α} {ctx : Ctx} {s s' : Env}
  {b : Nat}

theorem RangeTally.shape (tally : RangeTally P) (shape : SameShape s s') :
    heldBy P s' = heldBy P s := by
  unfold heldBy
  rw [shape.numBundles]
  exact Finset.sum_congr rfl fun x _ => by
    rw [(shape.bundles x).1]; exact tally.congr _ _ _ fun _ _ => by rw [shape.ranges]

theorem RangeTally.moveToSpill (tally : RangeTally P) (inv : AllocInv s) (pending : Pending s b)
    {spill : Nat} (found : (s.spillsets (s.bundles b).spillset).spillBundle = some spill) :
    heldBy P (moveToSpillBundle s b spill) = heldBy P s := by
  have apart : spill ≠ b := fun same => pending.allocatable.2 (same ▸ found)
  obtain ⟨-, -, numBundles, -, -, -⟩ := moveToSpillBundle_frame s b spill
  have uses : ∀ l, P (moveToSpillBundle s b spill) l = P s l := fun l =>
    tally.congr _ _ l fun e _ => by rw [moveToSpillBundle_ranges apart]; split <;> rfl
  have inB := Finset.mem_range.mpr pending.allocatable.1
  have inSpill := Finset.mem_range.mpr (inv.spillOf _ spill found).1
  unfold heldBy
  simp only [uses, numBundles]
  rw [sum_eq_pair_add inB inSpill (Ne.symm apart), sum_eq_pair_add inB inSpill (Ne.symm apart)]
  congr 1
  · simp only [moveToSpillBundle_bundles apart, if_neg (Ne.symm apart), ↓reduceIte, tally.nil,
      tally.append, zero_add]
    exact add_comm _ _
  · exact Finset.sum_congr rfl fun x member => by
      rw [moveToSpillBundle_bundles apart, if_neg (Finset.ne_of_mem_erase member),
        if_neg (Finset.ne_of_mem_erase (Finset.mem_of_mem_erase member))]

end Steps

section SplitShares

variable {α : Type} {P : Env → List LiveRangeListEntry → Multiset α} {s s' s₃ : Env}
  {b regHint point x : Nat} {added : List LiveRangeListEntry}

theorem RangeTally.untouched (tally : RangeTally P) (inv : AllocInv s) (bound : b < s.numBundles)
    (frame : SplitFrame s s' b s.numBundles (s.bundles b).spillset) (lt : x < s.numBundles)
    (other : x ≠ b) : P s' (s.bundles x).ranges = P s (s.bundles x).ranges :=
  tally.congr _ _ _ fun e member => by
    obtain ⟨-, inArena⟩ := inv.owner x lt e member
    rw [frame.ranges e.index inArena fun listed => other (by
      obtain ⟨f, inB, same⟩ := List.mem_map.mp listed
      exact inv.owner_eq lt bound member inB same.symm)]

theorem RangeTally.spillShare (tally : RangeTally P) (inv : AllocInv s) (bound : b < s.numBundles)
    (halves : SplitInv s s₃ b s.numBundles (s.bundles b).spillset point added)
    (frame : SplitFrame s s' b s.numBundles (s.bundles b).spillset)
    (requeued : Requeued s₃ s' b s.numBundles regHint)
    (found : (s'.spillsets (s.bundles b).spillset).spillBundle = some x) :
    P s' (s'.bundles x).ranges = heldAt P s x + P s' added := by
  have sb := halves.spillApart x (requeued.spillsets ▸ found)
  rw [requeued.others x sb.1 sb.2.1, ← spillRanges_of_some (requeued.spillsets ▸ found),
    halves.spilled, tally.append]
  rcases frame.spillsets with same | ⟨absent, sb', fresh, updated⟩
  · rw [same] at found
    have lt := (inv.spillOf _ x found).1
    rw [spillRanges_of_some found, tally.untouched inv bound frame lt sb.1, heldAt_of_lt lt]
  · obtain rfl : x = sb' := by simpa [updated] using found.symm
    rw [spillRanges, absent, tally.nil, heldAt_of_le fresh]

theorem RangeTally.otherShare (tally : RangeTally P) (inv : AllocInv s) (bound : b < s.numBundles)
    (frame : SplitFrame s s' b s.numBundles (s.bundles b).spillset) (lt : x < s'.numBundles)
    (xb : x ≠ b) (xn : x ≠ s.numBundles)
    (notSpill : (s'.spillsets (s.bundles b).spillset).spillBundle ≠ some x) :
    P s' (s'.bundles x).ranges = heldAt P s x := by
  have old : x < s.numBundles := Nat.lt_of_not_le fun le => by
    rcases frame.created x le lt with same | found
    exacts [xn same, notSpill found]
  rw [frame.bundles x xb xn notSpill, tally.untouched inv bound frame old xb, heldAt_of_lt old]

theorem RangeTally.restSum (tally : RangeTally P) (inv : AllocInv s) (bound : b < s.numBundles)
    (halves : SplitInv s s₃ b s.numBundles (s.bundles b).spillset point added)
    (frame : SplitFrame s s' b s.numBundles (s.bundles b).spillset)
    (requeued : Requeued s₃ s' b s.numBundles regHint) :
    ∑ x ∈ ((Finset.range s'.numBundles).erase b).erase s.numBundles, P s' (s'.bundles x).ranges =
      P s' added + ∑ x ∈ ((Finset.range s'.numBundles).erase b).erase s.numBundles, heldAt P s x := by
  have other : ∀ x ∈ ((Finset.range s'.numBundles).erase b).erase s.numBundles,
      (s'.spillsets (s.bundles b).spillset).spillBundle ≠ some x →
      P s' (s'.bundles x).ranges = heldAt P s x := fun x member =>
    tally.otherShare inv bound frame
      (Finset.mem_range.mp (Finset.mem_of_mem_erase (Finset.mem_of_mem_erase member)))
      (Finset.ne_of_mem_erase (Finset.mem_of_mem_erase member)) (Finset.ne_of_mem_erase member)
  cases found : (s'.spillsets (s.bundles b).spillset).spillBundle with
  | none =>
    have addedNone : added = [] := by
      have spilled := halves.spilled
      simp only [spillRanges, ← requeued.spillsets, found] at spilled
      exact (List.append_eq_nil.mp spilled.symm).2
    rw [addedNone, tally.nil, zero_add]
    exact Finset.sum_congr rfl fun x member => other x member (by simp [found])
  | some sb =>
    obtain ⟨sbB, sbN, sbLt⟩ := halves.spillApart sb (requeued.spillsets ▸ found)
    have member : sb ∈ ((Finset.range s'.numBundles).erase b).erase s.numBundles := by
      simp only [Finset.mem_erase, Finset.mem_range, requeued.numBundles]
      exact ⟨sbN, sbB, sbLt⟩
    rw [← Finset.add_sum_erase _ _ member, ← Finset.add_sum_erase _ _ member,
      tally.spillShare inv bound halves frame requeued found,
      Finset.sum_congr rfl fun x inErase => other x (Finset.mem_of_mem_erase inErase)
        (by simpa [found] using (Finset.ne_of_mem_erase inErase).symm)]
    exact (add_assoc _ _ _).trans (add_left_comm _ _ _)

end SplitShares

section Run

variable {α : Type} {P : Env → List LiveRangeListEntry → Multiset α} {ctx : Ctx} {s s' : Env}
  {b : Nat}

/-- A split deals what the bundle held out to its halves and the spill bundle: every other
bundle keeps its list and the uses of its live ranges, and a spill bundle it creates holds only
what the split added. -/
theorem RangeTally.split (tally : RangeTally P) (inv : AllocInv s) (pending : Pending s b)
    {splitAt regHint : Nat} (nonMinimal : minimalBundle s b = false)
    (inside : InsideBundle s b splitAt)
    (split : splitAndRequeueBundle ctx s b splitAt regHint = .ok s') :
    heldBy P s' = heldBy P s := by
  obtain ⟨s₃, point, added, -, halves, frame, requeued⟩ :=
    inv.splitFrame pending nonMinimal inside split
  have bound := pending.allocatable.1
  have grown : s.numBundles < s'.numBundles := requeued.numBundles ▸ halves.apart.2.2
  have arena : ∀ l, P s' l = P s₃ l := fun l => tally.congr _ _ l fun _ _ => by rw [requeued.ranges]
  have pieces : P s' (s'.bundles b).ranges + P s' (s'.bundles s.numBundles).ranges + P s' added =
      P s (s.bundles b).ranges := by
    rw [← tally.surgery halves, splitPieces, tally.append, tally.append, arena, arena, arena,
      (requeued.fields b).1, (requeued.fields _).1]
  have inB := Finset.mem_range.mpr (bound.trans grown)
  have inN := Finset.mem_range.mpr grown
  rw [heldBy_eq_sum (s := s) grown.le]
  unfold heldBy
  rw [sum_eq_pair_add inB inN (Nat.ne_of_lt bound), sum_eq_pair_add inB inN (Nat.ne_of_lt bound),
    tally.restSum inv bound halves frame requeued, heldAt_of_lt bound, heldAt_of_le le_rfl,
    add_zero, ← pieces]
  exact (add_assoc _ _ _).symm

theorem RangeTally.probeDone (tally : RangeTally P) (inv : AllocInv s) (pending : Pending s b)
    (done : ProbeDone ctx s b s') : heldBy P s' = heldBy P s := by
  cases done with
  | split nonMinimal inside split => exact tally.split inv pending nonMinimal inside split
  | allocated =>
    exact tally.shape ((sameShape_assignBundle s b _).trans (sameShape_updateSpillSet rfl))

theorem RangeTally.processed (tally : RangeTally P) (inv : AllocInv s) (pending : Pending s b)
    (processed : Processed ctx s b s') : heldBy P s' = heldBy P s := by
  cases processed with
  | attempt done =>
    cases done with
    | probed done => exact tally.probeDone inv pending done
    | required => exact tally.shape (sameShape_updateSpillSet rfl)
    | spilled => exact tally.shape ⟨rfl, rfl, rfl, fun _ => rfl, fun _ => ⟨rfl, rfl, rfl⟩⟩
  | @retry bundles _ _ _ done =>
    obtain ⟨inv', pending'⟩ := evictAll_inv bundles s inv pending
    exact (tally.probeDone inv' pending' done).trans (tally.shape (sameShape_evictAll ctx bundles s))
  | moveToSpill found => exact tally.moveToSpill inv pending found

theorem RangeTally.step (tally : RangeTally P) (cfg : CfgWellFormed ctx)
    (contract : ConflictsInside ctx) (inv : AllocInv s) (step : Step ctx s s') :
    heldBy P s' = heldBy P s := by
  obtain ⟨queued, processed⟩ := step
  obtain ⟨inv₀, pending⟩ := inv.dequeue queued
  exact (tally.processed inv₀ pending (inv₀.outcome cfg contract pending processed)).trans
    (tally.shape ⟨rfl, rfl, rfl, fun _ => rfl, fun _ => ⟨rfl, rfl, rfl⟩⟩)

theorem RangeTally.reachable (tally : RangeTally P) (cfg : CfgWellFormed ctx)
    (contract : ConflictsInside ctx) (inv : AllocInv s) (reach : Reachable ctx s s') :
    heldBy P s' = heldBy P s := by
  induction reach with
  | refl => rfl
  | tail reached step held =>
    exact (tally.step cfg contract (inv.reachable cfg contract reached) step).trans held

end Run

section Results

variable {ctx : Ctx} {s s' : Env}

/-- Along every run of `process_bundles` from a state satisfying the run invariant, whatever entry
each step takes from the queue, the program points the bundles' ranges cover and the uses of
their live ranges are conserved, counted with repeats: no split, eviction, assignment or
hand-over to a spill bundle drops a point or a use, or adds one. -/
theorem reachable_conserves (cfg : CfgWellFormed ctx) (contract : ConflictsInside ctx)
    (inv : AllocInv s) (reach : Reachable ctx s s') :
    pointsHeld s' = pointsHeld s ∧ usesHeld s' = usesHeld s :=
  ⟨pointsTally.reachable cfg contract inv reach, usesTally.reachable cfg contract inv reach⟩

theorem conflictExample_conserves :
    CfgWellFormed fixedCtx ∧ ConflictsInside fixedCtx ∧ AllocInv conflictExample ∧
      Reachable fixedCtx conflictExample conflictExampleDone ∧
      pointsHeld conflictExampleDone = pointsHeld conflictExample ∧
      usesHeld conflictExampleDone = usesHeld conflictExample :=
  ⟨fixedCtx_cfgWellFormed, fixedCtx_conflictsInside, conflictExample_allocInv, conflictExample_reaches,
    reachable_conserves fixedCtx_cfgWellFormed fixedCtx_conflictsInside conflictExample_allocInv
      conflictExample_reaches⟩

end Results

end IonRegalloc
