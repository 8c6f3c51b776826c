import Mathlib.Data.List.Pairwise
import IonRegalloc.Ion.Stackmap
import IonRegalloc.Proof.Probe

/-! The merged walk of `compute_stackmaps` agrees with the naive definition: each safepoint of a
reference-typed VReg gets the slot of the range covering it. -/

namespace IonRegalloc

/-- A code range covers the points `[from, to)`. -/
def Covers (range : CodeRange) (point : Nat) : Prop := range.from ≤ point ∧ point < range.to

instance (range : CodeRange) (point : Nat) : Decidable (Covers range point) :=
  inferInstanceAs (Decidable (_ ∧ _))

/-- The allocation of the first of `ranges` covering `point`. -/
def coverAlloc (allocForRange : Nat → Allocation) (ranges : List LiveRangeListEntry) (point : Nat) :
    Option Allocation :=
  (ranges.find? fun entry => decide (Covers entry.range point)).map
    fun entry => allocForRange entry.index

/-- The pair a safepoint contributes: its point and the spill slot of the range covering it. -/
def pointSlot (allocForRange : Nat → Allocation) (ranges : List LiveRangeListEntry) (point : Nat) :
    Option (Nat × Nat) :=
  ((coverAlloc allocForRange ranges point).bind Allocation.asStack).map (point, ·)

/-- Safepoint by safepoint: uncovered gives nothing, covered gives the range's slot, or the
panic if the range is not on the stack. -/
def emitAll (allocForRange : Nat → Allocation) (ranges : List LiveRangeListEntry) :
    List Nat → List (Nat × Nat) → Except Abort (List (Nat × Nat))
  | [], slots => .ok slots
  | point :: rest, slots =>
    match coverAlloc allocForRange ranges point with
    | none => emitAll allocForRange ranges rest slots
    | some alloc =>
      match alloc.asStack with
      | none => .error (.panic notInSpillslot)
      | some slot => emitAll allocForRange ranges rest (slots ++ [(point, slot)])

/-- The naive stackmap entries: for each reference-typed VReg and each of its safepoints
`Before(i)` covered by one of its ranges, the pair of that point and the range's slot. -/
def naiveSlots (reftypeVRegs : List Nat) (safepointsPerVReg : Nat → Option (List Nat))
    (allocForRange : Nat → Allocation) (s : Env) : List (Nat × Nat) :=
  reftypeVRegs.flatMap fun vreg => ((safepointsPerVReg vreg).getD []).filterMap
    fun inst => pointSlot allocForRange (s.vregs vreg).ranges (ProgPoint.before inst)

/-- Some safepoint of a reference-typed VReg lies in a range of it that is not a stack slot. -/
def Unspilled (reftypeVRegs : List Nat) (safepointsPerVReg : Nat → Option (List Nat))
    (allocForRange : Nat → Allocation) (s : Env) : Prop :=
  ∃ vreg ∈ reftypeVRegs, ∃ inst ∈ (safepointsPerVReg vreg).getD [],
    ∃ entry ∈ (s.vregs vreg).ranges, Covers entry.range (ProgPoint.before inst) ∧
      (allocForRange entry.index).asStack = none

section Walk

variable {allocForRange : Nat → Allocation}

theorem coverAlloc_cons_of_not_covers {entry : LiveRangeListEntry} {rest : List LiveRangeListEntry}
    {point : Nat} (outside : ¬ Covers entry.range point) :
    coverAlloc allocForRange (entry :: rest) point = coverAlloc allocForRange rest point := by
  simp [coverAlloc, List.find?_cons, outside]

theorem coverAlloc_cons_of_covers {entry : LiveRangeListEntry} {rest : List LiveRangeListEntry}
    {point : Nat} (inside : Covers entry.range point) :
    coverAlloc allocForRange (entry :: rest) point = some (allocForRange entry.index) := by
  simp [coverAlloc, List.find?_cons, inside]

theorem emitAll_congr {ranges ranges' : List LiveRangeListEntry} :
    ∀ {points : List Nat}, (∀ point ∈ points,
      coverAlloc allocForRange ranges point = coverAlloc allocForRange ranges' point) →
    ∀ slots, emitAll allocForRange ranges points slots = emitAll allocForRange ranges' points slots
  | [], _, _ => rfl
  | point :: rest, same, slots => by
    have later := fun q member => same q (List.mem_cons_of_mem point member)
    simp only [emitAll, same point (List.mem_cons_self _ _)]
    split
    · exact emitAll_congr later slots
    · split
      · rfl
      · exact emitAll_congr later _

theorem emitAll_nil_ranges :
    ∀ (points : List Nat) (slots : List (Nat × Nat)), emitAll allocForRange [] points slots = .ok slots
  | [], _ => rfl
  | _ :: rest, slots => emitAll_nil_ranges rest slots

theorem walkRanges_nil_points :
    ∀ (ranges : List LiveRangeListEntry) (slots : List (Nat × Nat)),
      walkRanges allocForRange ranges [] slots = .ok slots
  | [], _ => rfl
  | _ :: rest, slots => walkRanges_nil_points rest slots

/-- The walk over sorted safepoints and ranges sorted by start is the naive walk, safepoint by
safepoint. -/
theorem walkRanges_eq_emitAll : ∀ (ranges : List LiveRangeListEntry) (points : List Nat)
    (slots : List (Nat × Nat)), ranges.Pairwise (fun a b => a.range.from ≤ b.range.from) →
    points.Pairwise (· ≤ ·) →
    walkRanges allocForRange ranges points slots = emitAll allocForRange ranges points slots
  | [], points, slots, _, _ => (emitAll_nil_ranges points slots).symm
  | entry :: rest, points, slots, byStart, sorted => by
    obtain ⟨first, restByStart⟩ := List.pairwise_cons.mp byStart
    induction points generalizing slots with
    | nil => simp [walkRanges, walkRange, walkRanges_nil_points, emitAll]
    | cons point later ih =>
      obtain ⟨atMost, laterSorted⟩ := List.pairwise_cons.mp sorted
      have ih := fun slots => ih slots laterSorted
      by_cases past : entry.range.to ≤ point
      · have left : walkRanges allocForRange (entry :: rest) (point :: later) slots =
            walkRanges allocForRange rest (point :: later) slots := by
          simp [walkRanges, walkRange, Nat.not_lt.mpr past]
        rw [left, walkRanges_eq_emitAll rest _ slots restByStart sorted]
        refine (emitAll_congr (fun q member => ?_) slots).symm
        have : point ≤ q := by
          rcases List.mem_cons.mp member with rfl | inLater
          · exact le_rfl
          · exact atMost q inLater
        exact coverAlloc_cons_of_not_covers fun covers => by have := covers.2; omega
      have below : point < entry.range.to := Nat.lt_of_not_le past
      by_cases before : point < entry.range.from
      · have uncovered : coverAlloc allocForRange (entry :: rest) point = none := by
          simp only [coverAlloc, Option.map_eq_none', List.find?_eq_none, decide_eq_true_eq]
          intro x member covers
          rcases List.mem_cons.mp member with rfl | inRest
          · exact absurd covers.1 (Nat.not_le.mpr before)
          · have := first x inRest; have := covers.1; omega
        simp only [walkRanges, walkRange, below, before, if_true] at ih ⊢
        rw [ih, emitAll, uncovered]
      · have covered : coverAlloc allocForRange (entry :: rest) point =
            some (allocForRange entry.index) :=
          coverAlloc_cons_of_covers ⟨Nat.le_of_not_lt before, below⟩
        cases stack : (allocForRange entry.index).asStack with
        | none => simp [walkRanges, walkRange, below, before, stack, emitAll, covered]
        | some slot =>
          simp only [walkRanges, walkRange, below, before, stack, if_true, if_false] at ih ⊢
          rw [ih, emitAll, covered]
          simp [stack]

example : walkRanges .stack [⟨⟨0, 4⟩, 0⟩, ⟨⟨8, 12⟩, 1⟩] [2, 6, 10] [] = .ok [(2, 0), (10, 1)] :=
  rfl

variable {ranges : List LiveRangeListEntry}

theorem emitAll_of_spilled : ∀ {points : List Nat}, (∀ point ∈ points, ∀ alloc,
    coverAlloc allocForRange ranges point = some alloc → alloc.asStack ≠ none) →
    ∀ slots, emitAll allocForRange ranges points slots =
      .ok (slots ++ points.filterMap (pointSlot allocForRange ranges))
  | [], _, slots => by simp [emitAll]
  | point :: rest, spilled, slots => by
    have later := emitAll_of_spilled fun q member => spilled q (List.mem_cons_of_mem point member)
    cases cover : coverAlloc allocForRange ranges point with
    | none => simp [emitAll, pointSlot, cover, later]
    | some alloc =>
      cases stack : alloc.asStack with
      | none => exact absurd stack (spilled point (List.mem_cons_self _ _) alloc cover)
      | some slot => simp [emitAll, pointSlot, cover, stack, later]

theorem emitAll_of_unspilled : ∀ {points : List Nat}, (∃ point ∈ points, ∃ alloc,
    coverAlloc allocForRange ranges point = some alloc ∧ alloc.asStack = none) →
    ∀ slots, emitAll allocForRange ranges points slots = .error (.panic notInSpillslot)
  | [], ⟨_, member, _⟩, _ => by simp at member
  | point :: rest, ⟨q, member, alloc, cover, stack⟩, slots => by
    rcases List.mem_cons.mp member with rfl | inRest
    · simp [emitAll, cover, stack]
    · have later := emitAll_of_unspilled ⟨q, inRest, alloc, cover, stack⟩
      simp only [emitAll]
      split
      · exact later slots
      · split
        · rfl
        · exact later _

theorem coverAlloc_unspilled_iff (ordered : RangesOrdered ranges) (point : Nat) :
    (∃ alloc, coverAlloc allocForRange ranges point = some alloc ∧ alloc.asStack = none) ↔
      ∃ entry ∈ ranges, Covers entry.range point ∧ (allocForRange entry.index).asStack = none := by
  constructor
  · rintro ⟨alloc, cover, stack⟩
    obtain ⟨entry, found, rfl⟩ := Option.map_eq_some'.mp cover
    exact ⟨entry, List.mem_of_find?_eq_some found, by simpa using List.find?_some found, stack⟩
  · rintro ⟨entry, member, covers, stack⟩
    obtain ⟨first, found⟩ : ∃ first, ranges.find? (fun e => decide (Covers e.range point)) =
        some first :=
      Option.isSome_iff_exists.mp (List.find?_isSome.mpr ⟨entry, member, by simpa using covers⟩)
    have firstCovers : Covers first.range point := by simpa using List.find?_some found
    have symm : Symmetric fun a b : LiveRangeListEntry =>
        ¬ (LiveRangeKey.fromRange a.range).Overlaps (LiveRangeKey.fromRange b.range) :=
      fun _ _ apart overlap => apart overlap.symm
    have same : first = entry := by
      by_contra different
      refine ordered.disjoint.forall symm (List.mem_of_find?_eq_some found) member different ?_
      have := covers.1; have := covers.2; have := firstCovers.1; have := firstCovers.2
      exact ⟨by simp only [LiveRangeKey.fromRange]; omega, by simp only [LiveRangeKey.fromRange]; omega⟩
    exact ⟨_, by simp [coverAlloc, found, same], stack⟩

theorem sorted_safepoints (insts : List Nat) :
    ((insts.map ProgPoint.before).mergeSort fun a b => decide (a ≤ b)).Pairwise (· ≤ ·) :=
  (@List.sorted_mergeSort Nat (fun a b => decide (a ≤ b)) (fun _ _ _ first second => by
    simp only [decide_eq_true_eq] at *; omega) (fun _ _ => by simp; omega) _).imp (by simp)

/-- One VReg's walk over its sorted safepoints: the panic if one of them lies in a range off
the stack, and otherwise the naive pairs of its safepoints. -/
theorem walkRanges_safepoints (ordered : RangesOrdered ranges) (insts : List Nat)
    (slots : List (Nat × Nat)) :
    let safepoints := (insts.map ProgPoint.before).mergeSort fun a b => decide (a ≤ b)
    ((∃ inst ∈ insts, ∃ entry ∈ ranges, Covers entry.range (ProgPoint.before inst) ∧
        (allocForRange entry.index).asStack = none) →
      walkRanges allocForRange ranges safepoints slots = .error (.panic notInSpillslot)) ∧
    ((¬ ∃ inst ∈ insts, ∃ entry ∈ ranges, Covers entry.range (ProgPoint.before inst) ∧
        (allocForRange entry.index).asStack = none) →
      ∃ out, walkRanges allocForRange ranges safepoints slots = .ok out ∧
        out.Perm (slots ++ insts.filterMap fun inst =>
          pointSlot allocForRange ranges (ProgPoint.before inst))) := by
  intro safepoints
  have perm := List.mergeSort_perm (insts.map ProgPoint.before) fun a b => decide (a ≤ b)
  rw [walkRanges_eq_emitAll _ _ _ ordered.sortedByStart (sorted_safepoints insts)]
  constructor
  · rintro ⟨inst, member, unspilled⟩
    exact emitAll_of_unspilled ⟨_, perm.mem_iff.mpr (List.mem_map_of_mem _ member),
      (coverAlloc_unspilled_iff ordered _).mpr unspilled⟩ slots
  · intro spilled
    refine ⟨_, emitAll_of_spilled (fun point member alloc cover stack => ?_) slots, ?_⟩
    · obtain ⟨inst, instMember, rfl⟩ := List.mem_map.mp (perm.mem_iff.mp member)
      exact spilled ⟨inst, instMember, (coverAlloc_unspilled_iff ordered _).mp ⟨alloc, cover, stack⟩⟩
    · have sameSlots := (perm.filterMap (pointSlot allocForRange ranges)).append_left slots
      rw [List.filterMap_map] at sameSlots
      exact sameSlots

end Walk

section Stackmaps

variable {safepointsPerVReg : Nat → Option (List Nat)} {allocForRange : Nat → Allocation} {s : Env}

/-- The loop over the reference-typed VRegs panics exactly when the naive definition says so,
and otherwise adds exactly the naive pairs. -/
theorem stackmapVRegs_spec : ∀ (vregs : List Nat) (slots : List (Nat × Nat)),
    (∀ vreg ∈ vregs, (safepointsPerVReg vreg).isSome ∧ RangesOrdered (s.vregs vreg).ranges) →
    (Unspilled vregs safepointsPerVReg allocForRange s →
      stackmapVRegs safepointsPerVReg allocForRange s vregs slots = .error (.panic notInSpillslot)) ∧
    (¬ Unspilled vregs safepointsPerVReg allocForRange s →
      ∃ out, stackmapVRegs safepointsPerVReg allocForRange s vregs slots = .ok out ∧
        out.Perm (slots ++ naiveSlots vregs safepointsPerVReg allocForRange s))
  | [], slots, _ => ⟨fun ⟨_, member, _⟩ => by simp at member, fun _ => ⟨slots, rfl, by simp [naiveSlots]⟩⟩
  | vreg :: rest, slots, ready => by
    obtain ⟨insts, found⟩ := Option.isSome_iff_exists.mp (ready vreg (List.mem_cons_self _ _)).1
    have restReady := fun v member => ready v (List.mem_cons_of_mem vreg member)
    obtain ⟨walkError, walkOk⟩ := @walkRanges_safepoints allocForRange _
      (ready vreg (List.mem_cons_self _ _)).2 insts slots
    simp only [stackmapVRegs, found]
    constructor
    · rintro ⟨v, member, inst, instMember, unspilled⟩
      by_cases here : ∃ inst ∈ insts, ∃ entry ∈ (s.vregs vreg).ranges,
          Covers entry.range (ProgPoint.before inst) ∧ (allocForRange entry.index).asStack = none
      · rw [walkError here]
      · obtain ⟨out, walked, -⟩ := walkOk here
        rw [walked]
        rcases List.mem_cons.mp member with rfl | inRest
        · exact absurd ⟨inst, by simpa [found] using instMember, unspilled⟩ here
        · exact (stackmapVRegs_spec rest out restReady).1 ⟨v, inRest, inst, instMember, unspilled⟩
    · intro spilled
      obtain ⟨out, walked, perm⟩ := walkOk fun ⟨inst, instMember, unspilled⟩ =>
        spilled ⟨vreg, List.mem_cons_self _ _, inst, by simpa [found] using instMember, unspilled⟩
      obtain ⟨final, run, finalPerm⟩ := (stackmapVRegs_spec rest out restReady).2
        fun ⟨v, member, unspilled⟩ => spilled ⟨v, List.mem_cons_of_mem _ member, unspilled⟩
      refine ⟨final, by rw [walked]; exact run, finalPerm.trans ?_⟩
      simpa [naiveSlots, found] using perm.append_right (naiveSlots rest safepointsPerVReg allocForRange s)

/-- `compute_stackmaps` against the naive definition, when every reference-typed VReg has its
safepoints and sorted, disjoint ranges. It panics exactly when a safepoint lies in a range not
on the stack. Otherwise its result holds the old slots and exactly the naive pairs, sorted
whenever some VReg is reference-typed; with none, the slots come back unchanged. -/
theorem computeStackmaps_spec {reftypeVRegs : List Nat} {safepointSlots : List (Nat × Nat)}
    (ready : ∀ vreg ∈ reftypeVRegs,
      (safepointsPerVReg vreg).isSome ∧ RangesOrdered (s.vregs vreg).ranges) :
    (computeStackmaps reftypeVRegs safepointsPerVReg allocForRange s safepointSlots =
        .error (.panic notInSpillslot) ↔ Unspilled reftypeVRegs safepointsPerVReg allocForRange s) ∧
    (¬ Unspilled reftypeVRegs safepointsPerVReg allocForRange s →
      ∃ out, computeStackmaps reftypeVRegs safepointsPerVReg allocForRange s safepointSlots = .ok out ∧
        out.Perm (safepointSlots ++ naiveSlots reftypeVRegs safepointsPerVReg allocForRange s) ∧
        (reftypeVRegs ≠ [] → out.Pairwise fun a b => slotLe a b)) ∧
    (reftypeVRegs = [] →
      computeStackmaps reftypeVRegs safepointsPerVReg allocForRange s safepointSlots =
        .ok safepointSlots) := by
  cases reftypeVRegs with
  | nil =>
    exact ⟨⟨fun returned => (by cases returned), fun ⟨_, member, _⟩ => by simp at member⟩,
      fun _ => ⟨_, rfl, by simp [naiveSlots], fun nonempty => absurd rfl nonempty⟩, fun _ => rfl⟩
  | cons vreg rest =>
    obtain ⟨walkError, walkOk⟩ := stackmapVRegs_spec (vreg :: rest) safepointSlots ready
    simp only [computeStackmaps, List.isEmpty_cons, Bool.false_eq_true, if_false]
    refine ⟨?_, ?_, fun empty => absurd empty (List.cons_ne_nil _ _)⟩
    · constructor
      · intro panicked
        by_contra spilled
        obtain ⟨out, run, -⟩ := walkOk spilled
        rw [run] at panicked
        cases panicked
      · intro unspilled
        rw [walkError unspilled]
    · intro spilled
      obtain ⟨out, run, perm⟩ := walkOk spilled
      rw [run]
      refine ⟨_, rfl, (List.mergeSort_perm out slotLe).trans perm, fun _ => ?_⟩
      exact List.sorted_mergeSort (fun _ _ _ first second => by simp [slotLe] at *; omega)
        (fun a b => by simp [slotLe]; omega) out

end Stackmaps

/-- A VReg live over `[0, 4)` and `[8, 12)`, each range in the spill slot of its index. -/
def stackmapExample : Env :=
  { probeExample with vregs := fun _ => ⟨[⟨⟨0, 4⟩, 0⟩, ⟨⟨8, 12⟩, 1⟩]⟩ }

theorem stackmapExample_spec :
    let safepoints : Nat → Option (List Nat) := fun _ => some [1, 3, 5]
    (∀ vreg ∈ [0], (safepoints vreg).isSome ∧ RangesOrdered (stackmapExample.vregs vreg).ranges) ∧
    ((computeStackmaps [0] safepoints .stack stackmapExample [] = .error (.panic notInSpillslot) ↔
        Unspilled [0] safepoints .stack stackmapExample) ∧
      (¬ Unspilled [0] safepoints .stack stackmapExample →
        ∃ out, computeStackmaps [0] safepoints .stack stackmapExample [] = .ok out ∧
          out.Perm ([] ++ naiveSlots [0] safepoints .stack stackmapExample) ∧
          ([0] ≠ [] → out.Pairwise fun a b => slotLe a b)) ∧
      ([0] = [] → computeStackmaps [0] safepoints .stack stackmapExample [] = .ok [])) :=
  ⟨by decide, computeStackmaps_spec (by decide)⟩

/-- With no reference-typed VReg the function returns before its final sort, so unsorted
slots stay unsorted. -/
theorem stackmapExample_unsorted :
    (∀ vreg ∈ ([] : List Nat), ((fun _ => none : Nat → Option (List Nat)) vreg).isSome ∧
      RangesOrdered (stackmapExample.vregs vreg).ranges) ∧
    computeStackmaps [] (fun _ => none) .stack stackmapExample [(2, 0), (0, 0)] =
      .ok [(2, 0), (0, 0)] ∧
    ¬ [(2, 0), (0, 0)].Pairwise fun a b => slotLe a b :=
  ⟨by simp, rfl, by decide⟩

end IonRegalloc
