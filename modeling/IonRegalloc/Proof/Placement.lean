import IonRegalloc.Proof.VRegIndex
import IonRegalloc.Proof.Accounted

/-! Every program point of every VReg gets a location when `process_bundles` returns, and no
register ever holds two VRegs at one program point. -/

namespace IonRegalloc

/-- Every live range listed for a VReg is held by a bundle. -/
def VRegsHeld (s : Env) : Prop := ∀ v, ∀ lr ∈ listedRanges s v, HeldBy s lr

/-- Bundle `x` has a location: a register, or the stack, being listed as spilled or in a
spillset marked for it. -/
def Placed (s : Env) (x : Nat) : Prop :=
  (∃ p, (s.bundles x).allocation = .reg p) ∨ x ∈ s.spilledBundles ∨
    (s.spillsets (s.bundles x).spillset).required = true

section Held

variable {ctx : Ctx} {s s' : Env}

theorem VRegsHeld.kept (held : VRegsHeld s) (kept : VRegKept s s') (heldKept : HeldKept s s') :
    VRegsHeld s' := fun v lr member => by
  rcases kept.appended v lr member with old | fresh
  · exact heldKept.old lr (held v lr old)
  · exact heldKept.fresh lr fresh (kept.lists.inArena v lr member)

theorem Accounted.placed (accounted : Accounted s) (empty : s.allocationQueue = []) {x : Nat}
    (bound : x < s.numBundles) (nonempty : (s.bundles x).ranges ≠ []) : Placed s x := by
  rcases accounted.handled x bound nonempty with assigned | queued | rest
  · exact .inl assigned
  · simp [empty] at queued
  · exact .inr rest

theorem mem_rangePoints {lr p : Nat} :
    p ∈ rangePoints s lr ↔ (s.ranges lr).range.from ≤ p ∧ p < (s.ranges lr).range.to := by
  simp only [rangePoints, List.mem_range'_1, CodeRange.len]
  omega

end Held

section Results

variable {ctx : Ctx} {s s' : Env}

/-- When `process_bundles` returns from a state satisfying the run invariant, in which every
bundle with ranges is handled, every spill bundle is listed as spilled, and the VReg lists index
the allocatable bundles' live ranges and are held by bundles, every program point a VReg's
listed live ranges covered at the start is covered by a live range listed for that VReg and held
by a bundle assigned to a register, listed as spilled, or in a spillset marked for the stack. -/
theorem processBundles_places_vregs {fuel : Nat} (cfg : CfgWellFormed ctx)
    (contract : ConflictsInside ctx) (inv : AllocInv s) (accounted : Accounted s)
    (index : VRegIndexed s) (held : VRegsHeld s) (run : processBundles ctx fuel s = .ok s') :
    ∀ v, ∀ p ∈ vregPoints s v, ∃ lr ∈ listedRanges s' v, p ∈ rangePoints s' lr ∧
      ∃ x < s'.numBundles, lr ∈ heldRanges s' x ∧ Placed s' x := by
  obtain ⟨reach, empty⟩ := processBundles_run fuel s s' run
  obtain ⟨-, kept, heldKept⟩ := index.reachable cfg contract inv reach
  obtain ⟨accounted', -⟩ := accounted.reachable cfg contract inv reach
  intro v p member
  obtain ⟨e, listed, covered⟩ := List.mem_flatMap.mp ((kept.points v).mem_iff.mpr member)
  obtain ⟨x, bound, holds⟩ := held.kept kept heldKept v e.index (List.mem_map_of_mem _ listed)
  refine ⟨e.index, List.mem_map_of_mem _ listed, covered, x, bound, holds,
    accounted'.placed empty bound fun none => ?_⟩
  simp [heldRanges, none] at holds

theorem conflictExample_held : VRegsHeld conflictExample := fun _ lr member => by
  obtain ⟨small, rfl⟩ := mem_listed_conflictExample.mp member
  refine ⟨lr, small, ?_⟩
  obtain rfl | rfl : lr = 0 ∨ lr = 1 := by omega
  all_goals simp [heldRanges, conflictExample]

theorem conflictExample_places_vregs :
    CfgWellFormed fixedCtx ∧ ConflictsInside fixedCtx ∧ AllocInv conflictExample ∧
      Accounted conflictExample ∧ VRegIndexed conflictExample ∧ VRegsHeld conflictExample ∧
      processBundles fixedCtx 5 conflictExample = .ok conflictExampleDone ∧
      ∀ v, ∀ p ∈ vregPoints conflictExample v, ∃ lr ∈ listedRanges conflictExampleDone v,
        p ∈ rangePoints conflictExampleDone lr ∧ ∃ x < conflictExampleDone.numBundles,
          lr ∈ heldRanges conflictExampleDone x ∧ Placed conflictExampleDone x :=
  ⟨fixedCtx_cfgWellFormed, fixedCtx_conflictsInside, conflictExample_allocInv,
    conflictExample_accounted, conflictExample_indexed, conflictExample_held, conflictExample_run,
    processBundles_places_vregs fixedCtx_cfgWellFormed fixedCtx_conflictsInside
      conflictExample_allocInv conflictExample_accounted conflictExample_indexed
      conflictExample_held conflictExample_run⟩

/-- In every state a run of `process_bundles` reaches from one satisfying the run invariant whose
VReg lists index the allocatable bundles' live ranges, two live ranges listed for different VRegs
and held by bundles assigned to one register cover no common program point: no register ever
holds two VRegs at once. -/
theorem reachable_registers_exclusive (cfg : CfgWellFormed ctx) (contract : ConflictsInside ctx)
    (inv : AllocInv s) (index : VRegIndexed s) (reach : Reachable ctx s s') :
    ∀ v w, v ≠ w → ∀ lr ∈ listedRanges s' v, ∀ lr' ∈ listedRanges s' w, ∀ x y r,
      lr ∈ heldRanges s' x → lr' ∈ heldRanges s' y →
      (s'.bundles x).allocation = .reg r → (s'.bundles y).allocation = .reg r →
      ∀ p ∈ rangePoints s' lr, p ∉ rangePoints s' lr' := by
  have inv' := inv.reachable cfg contract reach
  obtain ⟨index', -, -⟩ := index.reachable cfg contract inv reach
  intro v w apart lr inV lr' inW x y r heldX heldY assignedX assignedY p inLr inLr'
  obtain ⟨e, inX, rfl⟩ := List.mem_map.mp heldX
  obtain ⟨f, inY, rfl⟩ := List.mem_map.mp heldY
  have distinct : e.index ≠ f.index := fun same =>
    apart (index'.lists.exclusive v w _ inV (same ▸ inW))
  rw [mem_rangePoints, (inv'.ready x (inv'.allocated x r assignedX).1).1.arena e inX] at inLr
  rw [mem_rangePoints, (inv'.ready y (inv'.allocated y r assignedY).1).1.arena f inY] at inLr'
  exact inv'.disjoint assignedX assignedY inX inY distinct ⟨by simp; omega, by simp; omega⟩

theorem conflictExample_registers_exclusive :
    CfgWellFormed fixedCtx ∧ ConflictsInside fixedCtx ∧ AllocInv conflictExample ∧
      VRegIndexed conflictExample ∧ Reachable fixedCtx conflictExample conflictExampleDone ∧
      ∀ v w, v ≠ w → ∀ lr ∈ listedRanges conflictExampleDone v,
        ∀ lr' ∈ listedRanges conflictExampleDone w, ∀ x y r,
        lr ∈ heldRanges conflictExampleDone x → lr' ∈ heldRanges conflictExampleDone y →
        (conflictExampleDone.bundles x).allocation = .reg r →
        (conflictExampleDone.bundles y).allocation = .reg r →
        ∀ p ∈ rangePoints conflictExampleDone lr, p ∉ rangePoints conflictExampleDone lr' :=
  ⟨fixedCtx_cfgWellFormed, fixedCtx_conflictsInside, conflictExample_allocInv,
    conflictExample_indexed, conflictExample_reaches, reachable_registers_exclusive
      fixedCtx_cfgWellFormed fixedCtx_conflictsInside conflictExample_allocInv
      conflictExample_indexed conflictExample_reaches⟩

end Results

end IonRegalloc
