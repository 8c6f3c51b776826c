import IonRegalloc.Data.Env

/-! `compute_stackmaps` (stackmap.rs lines 19-71). `sort_unstable` is `mergeSort`, which gives the
same list since equal elements are identical; `get_alloc_for_range` is a parameter. -/

namespace IonRegalloc

def Allocation.asStack : Allocation → Option Nat
  | .stack slot => some slot
  | _ => Option.none

/-- The message of the panic at line 60. -/
def notInSpillslot : String := "Reference-typed value not in spillslot at safepoint"

/-- The order `sort_unstable` puts `(ProgPoint, SpillSlot)` pairs in: by point, then slot. -/
def slotLe (a b : Nat × Nat) : Bool := a.1 < b.1 || (a.1 = b.1 && a.2 ≤ b.2)

/-- The `while` loop of lines 53-65 for one range: the remaining sorted safepoints, and the
slots emitted so far. It returns the safepoints left for the next range. -/
def walkRange (range : CodeRange) (alloc : Allocation) :
    List Nat → List (Nat × Nat) → Except Abort (List Nat × List (Nat × Nat))
  | [], slots => .ok ([], slots)
  | point :: rest, slots =>
    if point < range.to then
      if point < range.from then walkRange range alloc rest slots
      else
        match alloc.asStack with
        | none => .error (.panic notInSpillslot)
        | some slot => walkRange range alloc rest (slots ++ [(point, slot)])
    else .ok (point :: rest, slots)

/-- The loop of lines 49-66 over a VReg's ranges, sharing the safepoint cursor. -/
def walkRanges (allocForRange : Nat → Allocation) :
    List LiveRangeListEntry → List Nat → List (Nat × Nat) → Except Abort (List (Nat × Nat))
  | [], _, slots => .ok slots
  | entry :: rest, safepoints, slots =>
    match walkRange entry.range (allocForRange entry.index) safepoints slots with
    | .error e => .error e
    | .ok (safepoints, slots) => walkRanges allocForRange rest safepoints slots

/-- The loop of lines 35-67 over the reference-typed VRegs. -/
def stackmapVRegs (safepointsPerVReg : Nat → Option (List Nat)) (allocForRange : Nat → Allocation)
    (s : Env) : List Nat → List (Nat × Nat) → Except Abort (List (Nat × Nat))
  | [], slots => .ok slots
  | vreg :: rest, slots =>
    match safepointsPerVReg vreg with
    | none => .error (.panic unwrapNone)
    | some insts =>
      let safepoints := (insts.map ProgPoint.before).mergeSort fun a b => decide (a ≤ b)
      match walkRanges allocForRange (s.vregs vreg).ranges safepoints slots with
      | .error e => .error e
      | .ok slots => stackmapVRegs safepointsPerVReg allocForRange s rest slots

/-- `compute_stackmaps`: the new `safepoint_slots`, from the reference-typed VRegs, the
safepoints of each VReg by instruction, and the allocation of each live range. -/
def computeStackmaps (reftypeVRegs : List Nat) (safepointsPerVReg : Nat → Option (List Nat))
    (allocForRange : Nat → Allocation) (s : Env) (safepointSlots : List (Nat × Nat)) :
    Except Abort (List (Nat × Nat)) :=
  if reftypeVRegs.isEmpty then .ok safepointSlots
  else
    match stackmapVRegs safepointsPerVReg allocForRange s reftypeVRegs safepointSlots with
    | .error e => .error e
    | .ok slots => .ok (slots.mergeSort slotLe)

end IonRegalloc
