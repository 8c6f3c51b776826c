import Mathlib.Algebra.Order.Ring.Nat
import Mathlib.Logic.Function.Basic
import IonRegalloc.Data.AllocMap

/-! The allocator's arenas, each a total function beside its record count (a handle past the end
reads the default record where the Rust `Vec` would panic), and the collaborators of the core. -/

namespace IonRegalloc

/-- `OperandKind`, with Rust's variant names (`def` is a Lean keyword). -/
inductive OperandKind where
  | Def
  | Use
deriving DecidableEq, Repr, Inhabited

inductive OperandConstraint where
  | any
  | reg
  | stack
  | fixedReg (preg : Nat)
  | fixedStack (preg : Nat)
  | reuse (index : Nat)
deriving DecidableEq, Repr, Inhabited

structure Operand where
  kind : OperandKind
  constraint : OperandConstraint
deriving DecidableEq, Repr, Inhabited

/-- A use or def of a live range. Its `weight` stands for the `u16` bits of an `f32` spill
weight; floating-point weights are modelled as exact naturals throughout. -/
structure Use where
  pos : Nat
  operand : Operand
  weight : Nat
deriving DecidableEq, Repr, Inhabited

/-- A live range. `vreg = none` is `VRegIndex::invalid()`; `startsAtDef` is the one flag
of `uses_spill_weight_and_flags` this core reads. -/
structure LiveRange where
  range : CodeRange
  vreg : Option Nat
  bundle : Nat
  uses : List Use
  usesSpillWeight : Nat
  startsAtDef : Bool
deriving DecidableEq, Repr, Inhabited

structure LiveRangeListEntry where
  range : CodeRange
  index : Nat
deriving DecidableEq, Repr, Inhabited

inductive Allocation where
  | none
  | reg (preg : Nat)
  | stack (slot : Nat)
deriving DecidableEq, Repr, Inhabited

def Allocation.asReg : Allocation → Option Nat
  | .reg preg => some preg
  | _ => Option.none

/-- A bundle. `spillWeight`, `minimal`, `fixed` and `stack` are the cached properties packed
in `spill_weight_and_props`. -/
structure LiveBundle where
  ranges : List LiveRangeListEntry
  spillset : Nat
  allocation : Allocation
  prio : Nat
  spillWeight : Nat
  minimal : Bool
  fixed : Bool
  stack : Bool
deriving DecidableEq, Repr, Inhabited

/-- A spillset; `spillBundle = none` is `LiveBundleIndex::invalid()`. -/
structure SpillSet where
  «class» : Nat
  regHint : Nat
  required : Bool
  spillBundle : Option Nat
deriving DecidableEq, Repr, Inhabited

structure VRegData where
  ranges : List LiveRangeListEntry
deriving DecidableEq, Repr, Inhabited

structure PRegData where
  allocations : AllocMap
  isStack : Bool
deriving DecidableEq, Repr, Inhabited

structure PrioQueueEntry where
  prio : Nat
  bundle : Nat
  regHint : Nat
deriving DecidableEq, Repr, Inhabited

inductive Requirement where
  | any
  | register
  | stack
  | fixedReg (preg : Nat)
  | fixedStack (preg : Nat)
deriving DecidableEq, Repr, Inhabited

/-- The part of `Env` the allocation loop reads and writes. Statistics counters are left
out: nothing reads them. -/
structure Env where
  ranges : Nat → LiveRange
  numRanges : Nat
  bundles : Nat → LiveBundle
  numBundles : Nat
  spillsets : Nat → SpillSet
  vregs : Nat → VRegData
  pregs : Nat → PRegData
  allocationQueue : List PrioQueueEntry
  spilledBundles : List Nat

/-- What the core consumes from its surroundings (spec §6): the instruction count, the CFG
analysis, the machine environment, `RegTraversalIter`, `compute_requirement`,
`spill_weight_from_constraint`, the three bundle spill-weight constants with the order the
spec gives them, and `PReg::invalid()`. -/
structure Ctx where
  numInsts : Nat
  insnBlock : Nat → Nat
  approxLoopDepth : Nat → Nat
  blockEntry : Nat → Nat
  preferredRegsByClass : Nat → List Nat
  nonPreferredRegsByClass : Nat → List Nat
  /-- `RegTraversalIter::new(env, class, hint, hint2, offset, fixed)`, as the list it yields. -/
  regTraversal : Nat → Nat → Nat → Nat → Option Nat → List Nat
  /-- `Err(p)` is `RequirementConflictAt(p)`. -/
  computeRequirement : Env → Nat → Except Nat Requirement
  /-- `spill_weight_from_constraint(constraint, loop_depth, is_def).to_int()`. -/
  spillWeightFromConstraint : OperandConstraint → Nat → Bool → Nat
  minimalFixedBundleSpillWeight : Nat
  minimalBundleSpillWeight : Nat
  bundleMaxNormalSpillWeight : Nat
  weights_ordered : bundleMaxNormalSpillWeight < minimalBundleSpillWeight ∧
    minimalBundleSpillWeight < minimalFixedBundleSpillWeight
  invalidPReg : Nat

/-- How a call ends when it does not return: `Err(TooManyLiveRegs)`, a panic with its
message, or a loop that never exits. -/
inductive Abort where
  | tooManyLiveRegs
  | panic (message : String)
  | diverge
deriving DecidableEq, Repr

def unwrapNone : String := "called `Option::unwrap()` on a `None` value"

def indexOutOfBounds : String := "index out of bounds"

inductive AllocRegResult where
  | allocated (alloc : Allocation)
  | conflict (bundles : List Nat) (point : Nat)
  | conflictWithFixed (maxCost : Nat) (point : Nat)
  | conflictHighCost
deriving DecidableEq, Repr

namespace Env

variable (s : Env)

def updateRange (lr : Nat) (f : LiveRange → LiveRange) : Env :=
  { s with ranges := Function.update s.ranges lr (f (s.ranges lr)) }

def updateBundle (b : Nat) (f : LiveBundle → LiveBundle) : Env :=
  { s with bundles := Function.update s.bundles b (f (s.bundles b)) }

def updateSpillSet (ss : Nat) (f : SpillSet → SpillSet) : Env :=
  { s with spillsets := Function.update s.spillsets ss (f (s.spillsets ss)) }

def updateVReg (v : Nat) (f : VRegData → VRegData) : Env :=
  { s with vregs := Function.update s.vregs v (f (s.vregs v)) }

def updatePReg (p : Nat) (f : PRegData → PRegData) : Env :=
  { s with pregs := Function.update s.pregs p (f (s.pregs p)) }

/-- Modelled from the spec: `PrioQueue::insert` (not under src/) adds an entry; the entries
are kept in insertion order. -/
def enqueue (bundle prio regHint : Nat) : Env :=
  { s with allocationQueue := s.allocationQueue ++ [⟨prio, bundle, regHint⟩] }

/-- Modelled from the spec: `create_bundle` (not under src/) appends an empty, unallocated
bundle with an invalid spillset and returns its handle. -/
def createBundle : Nat × Env :=
  (s.numBundles,
    { s with
      bundles := Function.update s.bundles s.numBundles
        ⟨[], u32Max, .none, 0, 0, false, false, false⟩
      numBundles := s.numBundles + 1 })

/-- Modelled from the spec: `create_liverange` (not under src/) appends a live range over
`range` with no vreg, no bundle and no uses, and returns its handle. -/
def createLiverange (range : CodeRange) : Nat × Env :=
  (s.numRanges,
    { s with
      ranges := Function.update s.ranges s.numRanges ⟨range, none, u32Max, [], 0, false⟩
      numRanges := s.numRanges + 1 })

section Simp

variable {s} {lr b ss v p : Nat}

@[simp] theorem updateRange_ranges (f : LiveRange → LiveRange) (x : Nat) :
    (s.updateRange lr f).ranges x = if x = lr then f (s.ranges lr) else s.ranges x := by
  simp [updateRange, Function.update_apply]

@[simp] theorem updateBundle_bundles (f : LiveBundle → LiveBundle) (x : Nat) :
    (s.updateBundle b f).bundles x = if x = b then f (s.bundles b) else s.bundles x := by
  simp [updateBundle, Function.update_apply]

@[simp] theorem updateSpillSet_spillsets (f : SpillSet → SpillSet) (x : Nat) :
    (s.updateSpillSet ss f).spillsets x = if x = ss then f (s.spillsets ss) else s.spillsets x := by
  simp [updateSpillSet, Function.update_apply]

@[simp] theorem updateVReg_vregs (f : VRegData → VRegData) (x : Nat) :
    (s.updateVReg v f).vregs x = if x = v then f (s.vregs v) else s.vregs x := by
  simp [updateVReg, Function.update_apply]

@[simp] theorem updatePReg_pregs (f : PRegData → PRegData) (x : Nat) :
    (s.updatePReg p f).pregs x = if x = p then f (s.pregs p) else s.pregs x := by
  simp [updatePReg, Function.update_apply]

@[simp] theorem updateRange_bundles (f) : (s.updateRange lr f).bundles = s.bundles := rfl
@[simp] theorem updateRange_numRanges (f) : (s.updateRange lr f).numRanges = s.numRanges := rfl
@[simp] theorem updateRange_numBundles (f) : (s.updateRange lr f).numBundles = s.numBundles := rfl
@[simp] theorem updateRange_spillsets (f) : (s.updateRange lr f).spillsets = s.spillsets := rfl
@[simp] theorem updateRange_vregs (f) : (s.updateRange lr f).vregs = s.vregs := rfl
@[simp] theorem updateRange_pregs (f) : (s.updateRange lr f).pregs = s.pregs := rfl
@[simp] theorem updateRange_allocationQueue (f) :
    (s.updateRange lr f).allocationQueue = s.allocationQueue := rfl
@[simp] theorem updateRange_spilledBundles (f) :
    (s.updateRange lr f).spilledBundles = s.spilledBundles := rfl

@[simp] theorem updateBundle_ranges (f) : (s.updateBundle b f).ranges = s.ranges := rfl
@[simp] theorem updateBundle_numRanges (f) : (s.updateBundle b f).numRanges = s.numRanges := rfl
@[simp] theorem updateBundle_numBundles (f) :
    (s.updateBundle b f).numBundles = s.numBundles := rfl
@[simp] theorem updateBundle_spillsets (f) : (s.updateBundle b f).spillsets = s.spillsets := rfl
@[simp] theorem updateBundle_vregs (f) : (s.updateBundle b f).vregs = s.vregs := rfl
@[simp] theorem updateBundle_pregs (f) : (s.updateBundle b f).pregs = s.pregs := rfl
@[simp] theorem updateBundle_allocationQueue (f) :
    (s.updateBundle b f).allocationQueue = s.allocationQueue := rfl
@[simp] theorem updateBundle_spilledBundles (f) :
    (s.updateBundle b f).spilledBundles = s.spilledBundles := rfl

@[simp] theorem updateSpillSet_ranges (f) : (s.updateSpillSet ss f).ranges = s.ranges := rfl
@[simp] theorem updateSpillSet_numRanges (f) :
    (s.updateSpillSet ss f).numRanges = s.numRanges := rfl
@[simp] theorem updateSpillSet_bundles (f) : (s.updateSpillSet ss f).bundles = s.bundles := rfl
@[simp] theorem updateSpillSet_numBundles (f) :
    (s.updateSpillSet ss f).numBundles = s.numBundles := rfl
@[simp] theorem updateSpillSet_vregs (f) : (s.updateSpillSet ss f).vregs = s.vregs := rfl
@[simp] theorem updateSpillSet_pregs (f) : (s.updateSpillSet ss f).pregs = s.pregs := rfl
@[simp] theorem updateSpillSet_allocationQueue (f) :
    (s.updateSpillSet ss f).allocationQueue = s.allocationQueue := rfl
@[simp] theorem updateSpillSet_spilledBundles (f) :
    (s.updateSpillSet ss f).spilledBundles = s.spilledBundles := rfl

@[simp] theorem updateVReg_ranges (f) : (s.updateVReg v f).ranges = s.ranges := rfl
@[simp] theorem updateVReg_numRanges (f) : (s.updateVReg v f).numRanges = s.numRanges := rfl
@[simp] theorem updateVReg_bundles (f) : (s.updateVReg v f).bundles = s.bundles := rfl
@[simp] theorem updateVReg_numBundles (f) : (s.updateVReg v f).numBundles = s.numBundles := rfl
@[simp] theorem updateVReg_spillsets (f) : (s.updateVReg v f).spillsets = s.spillsets := rfl
@[simp] theorem updateVReg_pregs (f) : (s.updateVReg v f).pregs = s.pregs := rfl
@[simp] theorem updateVReg_allocationQueue (f) :
    (s.updateVReg v f).allocationQueue = s.allocationQueue := rfl
@[simp] theorem updateVReg_spilledBundles (f) :
    (s.updateVReg v f).spilledBundles = s.spilledBundles := rfl

@[simp] theorem updatePReg_ranges (f) : (s.updatePReg p f).ranges = s.ranges := rfl
@[simp] theorem updatePReg_numRanges (f) : (s.updatePReg p f).numRanges = s.numRanges := rfl
@[simp] theorem updatePReg_bundles (f) : (s.updatePReg p f).bundles = s.bundles := rfl
@[simp] theorem updatePReg_numBundles (f) : (s.updatePReg p f).numBundles = s.numBundles := rfl
@[simp] theorem updatePReg_spillsets (f) : (s.updatePReg p f).spillsets = s.spillsets := rfl
@[simp] theorem updatePReg_vregs (f) : (s.updatePReg p f).vregs = s.vregs := rfl
@[simp] theorem updatePReg_allocationQueue (f) :
    (s.updatePReg p f).allocationQueue = s.allocationQueue := rfl
@[simp] theorem updatePReg_spilledBundles (f) :
    (s.updatePReg p f).spilledBundles = s.spilledBundles := rfl

@[simp] theorem enqueue_allocationQueue (bundle prio hint : Nat) :
    (s.enqueue bundle prio hint).allocationQueue = s.allocationQueue ++ [⟨prio, bundle, hint⟩] :=
  rfl
@[simp] theorem enqueue_ranges (bundle prio hint : Nat) :
    (s.enqueue bundle prio hint).ranges = s.ranges := rfl
@[simp] theorem enqueue_numRanges (bundle prio hint : Nat) :
    (s.enqueue bundle prio hint).numRanges = s.numRanges := rfl
@[simp] theorem enqueue_bundles (bundle prio hint : Nat) :
    (s.enqueue bundle prio hint).bundles = s.bundles := rfl
@[simp] theorem enqueue_numBundles (bundle prio hint : Nat) :
    (s.enqueue bundle prio hint).numBundles = s.numBundles := rfl
@[simp] theorem enqueue_spillsets (bundle prio hint : Nat) :
    (s.enqueue bundle prio hint).spillsets = s.spillsets := rfl
@[simp] theorem enqueue_vregs (bundle prio hint : Nat) :
    (s.enqueue bundle prio hint).vregs = s.vregs := rfl
@[simp] theorem enqueue_pregs (bundle prio hint : Nat) :
    (s.enqueue bundle prio hint).pregs = s.pregs := rfl
@[simp] theorem enqueue_spilledBundles (bundle prio hint : Nat) :
    (s.enqueue bundle prio hint).spilledBundles = s.spilledBundles := rfl

@[simp] theorem createBundle_fst : s.createBundle.1 = s.numBundles := rfl
@[simp] theorem createBundle_bundles (x : Nat) :
    s.createBundle.2.bundles x =
      if x = s.numBundles then ⟨[], u32Max, .none, 0, 0, false, false, false⟩ else s.bundles x := by
  simp [createBundle, Function.update_apply]
@[simp] theorem createBundle_numBundles : s.createBundle.2.numBundles = s.numBundles + 1 := rfl
@[simp] theorem createBundle_ranges : s.createBundle.2.ranges = s.ranges := rfl
@[simp] theorem createBundle_numRanges : s.createBundle.2.numRanges = s.numRanges := rfl
@[simp] theorem createBundle_spillsets : s.createBundle.2.spillsets = s.spillsets := rfl
@[simp] theorem createBundle_vregs : s.createBundle.2.vregs = s.vregs := rfl
@[simp] theorem createBundle_pregs : s.createBundle.2.pregs = s.pregs := rfl
@[simp] theorem createBundle_allocationQueue :
    s.createBundle.2.allocationQueue = s.allocationQueue := rfl
@[simp] theorem createBundle_spilledBundles : s.createBundle.2.spilledBundles = s.spilledBundles :=
  rfl

@[simp] theorem createLiverange_fst (range : CodeRange) : (s.createLiverange range).1 = s.numRanges :=
  rfl
@[simp] theorem createLiverange_ranges (range : CodeRange) (x : Nat) :
    (s.createLiverange range).2.ranges x =
      if x = s.numRanges then ⟨range, none, u32Max, [], 0, false⟩ else s.ranges x := by
  simp [createLiverange, Function.update_apply]
@[simp] theorem createLiverange_numRanges (range : CodeRange) :
    (s.createLiverange range).2.numRanges = s.numRanges + 1 := rfl
@[simp] theorem createLiverange_bundles (range : CodeRange) :
    (s.createLiverange range).2.bundles = s.bundles := rfl
@[simp] theorem createLiverange_numBundles (range : CodeRange) :
    (s.createLiverange range).2.numBundles = s.numBundles := rfl
@[simp] theorem createLiverange_spillsets (range : CodeRange) :
    (s.createLiverange range).2.spillsets = s.spillsets := rfl
@[simp] theorem createLiverange_vregs (range : CodeRange) :
    (s.createLiverange range).2.vregs = s.vregs := rfl
@[simp] theorem createLiverange_pregs (range : CodeRange) :
    (s.createLiverange range).2.pregs = s.pregs := rfl
@[simp] theorem createLiverange_allocationQueue (range : CodeRange) :
    (s.createLiverange range).2.allocationQueue = s.allocationQueue := rfl
@[simp] theorem createLiverange_spilledBundles (range : CodeRange) :
    (s.createLiverange range).2.spilledBundles = s.spilledBundles := rfl

end Simp

end Env

end IonRegalloc
