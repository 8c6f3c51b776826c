import Mathlib.Logic.Relation
import IonRegalloc.Ion.TryAllocate
import IonRegalloc.Ion.Split

/-! `process_bundle` and `process_bundles` (process.rs lines 44-54 and 729-1062). Evicting needs
`attempts < 2`, so the attempt loop gets two attempts of fuel; `Step` pops any queued entry. -/

namespace IonRegalloc

/-- The candidates the probe loop keeps (lines 809-814). -/
structure ProbeBest where
  evictSet : Option (List Nat)
  evictCost : Option Nat
  splitCost : Option Nat
  splitPoint : Nat
  splitReg : Nat
deriving DecidableEq, Repr

def ProbeBest.initial (ctx : Ctx) : ProbeBest :=
  ⟨none, none, none, ProgPoint.before 0, ctx.invalidPReg⟩

/-- `lowest.is_none() || cost < lowest.unwrap()`. -/
def lowerCost (cost : Nat) : Option Nat → Bool
  | none => true
  | some lowest => cost < lowest

/-- `spill_weight_from_constraint(Reg, loop_depth, true)` at the point's block. -/
def moveCostAt (ctx : Ctx) (point : Nat) : Nat :=
  ctx.spillWeightFromConstraint .reg (ctx.approxLoopDepth (ctx.insnBlock (ProgPoint.inst point)))
    true

/-- A split candidate of cost `cost` at `point` on `preg` (lines 880-887 and 901-907). -/
def ProbeBest.noteSplit (best : ProbeBest) (preg cost point : Nat) : ProbeBest :=
  if lowerCost cost best.splitCost then
    { best with splitCost := some cost, splitPoint := point, splitReg := preg }
  else best

/-- `AllocRegResult::Conflict` (lines 856-888): an evict candidate and a split candidate. -/
def ProbeBest.noteConflict (best : ProbeBest) (ctx : Ctx) (s : Env) (preg : Nat)
    (bundles : List Nat) (point : Nat) : ProbeBest :=
  let conflictCost := maximumSpillWeightInBundleSet s bundles
  let best := if lowerCost conflictCost best.evictCost then
      { best with evictCost := some conflictCost, evictSet := some bundles }
    else best
  best.noteSplit preg (u32Add conflictCost (moveCostAt ctx point)) point

/-- `AllocRegResult::ConflictWithFixed` (lines 889-908): a split candidate only. -/
def ProbeBest.noteFixedConflict (best : ProbeBest) (ctx : Ctx) (preg maxCost point : Nat) :
    ProbeBest :=
  best.noteSplit preg (u32Add maxCost (moveCostAt ctx point)) point

/-- `scan_limit_cost` (lines 841-847): prune once both candidates have a cost. -/
def scanLimitCost : Option Nat → Option Nat → Option Nat
  | some a, some b => some (max a b)
  | _, _ => none

/-- How a probe result other than `Allocated` updates the candidates (lines 856-915);
`ConflictHighCost` leaves them. -/
def ProbeBest.noteResult (best : ProbeBest) (ctx : Ctx) (s : Env) (preg : Nat) :
    AllocRegResult → ProbeBest
  | .conflict bundles point => best.noteConflict ctx s preg bundles point
  | .conflictWithFixed maxCost point => best.noteFixedConflict ctx preg maxCost point
  | _ => best

inductive ProbeExit where
  | allocated (alloc : Allocation) (s : Env)
  | exhausted (best : ProbeBest)

/-- The probe loop (lines 829-916) over the PRegs the traversal yields. `limit` computes
`max_allowable_cost` from the two lowest costs: `scanLimitCost` in the source. -/
def probeRegs (ctx : Ctx) (limit : Option Nat → Option Nat → Option Nat) (s : Env)
    (bundle : Nat) : List Nat → ProbeBest → Except Abort ProbeExit
  | [], best => .ok (.exhausted best)
  | preg :: rest, best =>
    match tryToAllocateBundleToReg s bundle preg (limit best.evictCost best.splitCost) with
    | .error e => .error e
    | .ok (.allocated alloc, s') => .ok (.allocated alloc s')
    | .ok (result, _) => probeRegs ctx limit s bundle rest (best.noteResult ctx s preg result)

/-- One PReg's share of the too-many-live-registers count (lines 969-988): the minimal-bundle
and fixed entries overlapping `range`, scanning from the iterator `entries`. -/
def countOccupants (s : Env) (range : CodeRange) : AllocMap → Nat × Nat → Nat × Nat
  | [], counts => counts
  | (key, lr) :: rest, (minCount, fixedCount) =>
    if key.to ≤ range.from then countOccupants s range rest (minCount, fixedCount)
    else if range.to ≤ key.from then (minCount, fixedCount)
    else
      match lr with
      | some lr =>
        countOccupants s range rest
          (if minimalBundle s (s.ranges lr).bundle then minCount + 1 else minCount, fixedCount)
      | none => countOccupants s range rest (minCount, fixedCount + 1)

/-- One round of the loop at lines 960-992: scan `preg`'s map from `start`, then count the
register. The counters are minimal-bundle entries, fixed entries, and registers. -/
def countPRegOccupants (s : Env) (range : CodeRange) (start : LiveRangeKey)
    (counts : Nat × Nat × Nat) (preg : Nat) : Nat × Nat × Nat :=
  let occupants := countOccupants s range ((s.pregs preg).allocations.rangeFrom start)
    (counts.1, counts.2.1)
  (occupants.1, occupants.2, counts.2.2 + 1)

/-- The three counters after the loop over the class's registers. The scan of each map starts
at the key `range.from.prev()`. -/
def occupantCounts (ctx : Ctx) (s : Env) (regClass : Nat) (range : CodeRange) : Nat × Nat × Nat :=
  (ctx.preferredRegsByClass regClass ++ ctx.nonPreferredRegsByClass regClass).foldl
    (countPRegOccupants s range
      (LiveRangeKey.fromRange ⟨ProgPoint.prev range.from, ProgPoint.prev range.from⟩)) (0, 0, 0)

/-- Lines 955-999: whether the minimal and fixed occupants of the class's registers over
`range` are at least as many as the registers. -/
def tooManyLiveRegs (ctx : Ctx) (s : Env) (regClass : Nat) (range : CodeRange) : Bool :=
  let counts := occupantCounts ctx s regClass range
  counts.2.2 ≤ counts.1 + counts.2.1

/-- Lines 1032-1048: a split point in a deeper loop than the bundle's start moves to the entry
of the first block after the start's block that is deeper than the start. -/
def hoistSplitPoint (ctx : Ctx) (bundleStart splitAtPoint : Nat) : Nat :=
  let startBlock := ctx.insnBlock (ProgPoint.inst bundleStart)
  let splitBlock := ctx.insnBlock (ProgPoint.inst splitAtPoint)
  let bundleStartDepth := ctx.approxLoopDepth startBlock
  if bundleStartDepth < ctx.approxLoopDepth splitBlock then
    match (List.range' (startBlock + 1) (splitBlock - startBlock)).find?
        (fun block => bundleStartDepth < ctx.approxLoopDepth block) with
    | some block => ctx.blockEntry block
    | none => splitAtPoint
  else splitAtPoint

/-- The message of the panic at line 1002. -/
def minimalBundlePanic : String :=
  "Could not allocate minimal bundle, but the allocation problem should be possible to solve"

/-- How one attempt ends: `process_bundle` returns with this state, or the bundles are
evicted and the loop tries again. -/
inductive AttemptResult where
  | done (s : Env)
  | evict (bundles : List Nat)

/-- Lines 940-1060, after a probe that found no free register. -/
def decideAfterProbe (ctx : Ctx) (s : Env) (bundle regClass : Nat) (req : Requirement)
    (attempts : Nat) (best : ProbeBest) : Except Abort AttemptResult :=
  let ourSpillWeight := bundleSpillWeight s bundle
  if minimalBundle s bundle ∧
      (2 ≤ attempts ∨ best.evictCost = none ∨ best.evictCost.getD 0 ≥ ourSpillWeight) then
    match (s.bundles bundle).ranges.head? with
    | none => .error (.panic indexOutOfBounds)
    | some first =>
      if req = .register ∧ tooManyLiveRegs ctx s regClass first.range then .error .tooManyLiveRegs
      else .error (.panic minimalBundlePanic)
  else if ¬ minimalBundle s bundle ∧
      (2 ≤ attempts ∨ best.evictCost = none ∨ ourSpillWeight ≤ best.evictCost.getD 0) then
    match (s.bundles bundle).ranges.head? with
    | none => .error (.panic indexOutOfBounds)
    | some first =>
      let bundleStart := first.range.from
      let splitAtPoint := hoistSplitPoint ctx bundleStart (max best.splitPoint bundleStart)
      match splitAndRequeueBundle ctx s bundle splitAtPoint best.splitReg with
      | .error e => .error e
      | .ok s => .ok (.done s)
  else
    match best.evictSet with
    | none => .error (.panic unwrapNone)
    | some bundles => .ok (.evict bundles)

/-- Lines 808-1060 for a requirement that needs a register: probe the PRegs the traversal
yields (only `fixedPreg` when there is one) and allocate, or decide what to do instead. -/
def probeAndDecide (ctx : Ctx) (limit : Option Nat → Option Nat → Option Nat) (s : Env)
    (bundle regClass hintReg : Nat) (req : Requirement) (attempts : Nat)
    (fixedPreg : Option Nat) : Except Abort AttemptResult :=
  match (s.bundles bundle).ranges.head? with
  | none => .error (.panic indexOutOfBounds)
  | some first =>
    let scanOffset := ProgPoint.inst (s.ranges first.index).range.from + bundle
    match probeRegs ctx limit s bundle
        (ctx.regTraversal regClass hintReg ctx.invalidPReg scanOffset fixedPreg)
        (ProbeBest.initial ctx) with
    | .error e => .error e
    | .ok (.allocated alloc s') =>
      match alloc.asReg with
      | none => .error (.panic unwrapNone)
      | some preg =>
        .ok (.done (s'.updateSpillSet (s'.bundles bundle).spillset fun ss =>
          { ss with regHint := preg }))
    | .ok (.exhausted best) => decideAfterProbe ctx s bundle regClass req attempts best

/-- The body of the attempt loop (lines 787-1061) for attempt number `attempts`. -/
def processAttempt (ctx : Ctx) (limit : Option Nat → Option Nat → Option Nat) (s : Env)
    (bundle regClass hintReg : Nat) (req : Requirement) (attempts : Nat) :
    Except Abort AttemptResult :=
  match req with
  | .fixedReg preg | .fixedStack preg =>
    probeAndDecide ctx limit s bundle regClass hintReg req attempts (some preg)
  | .register => probeAndDecide ctx limit s bundle regClass hintReg req attempts none
  | .stack =>
    .ok (.done (s.updateSpillSet (s.bundles bundle).spillset fun ss => { ss with required := true }))
  | .any => .ok (.done { s with spilledBundles := s.spilledBundles ++ [bundle] })

def evictAll (ctx : Ctx) (s : Env) (bundles : List Nat) : Env :=
  bundles.foldl (evictBundle ctx) s

/-- The attempt loop, `attempts` being the attempts made so far. -/
def attemptLoop (ctx : Ctx) (limit : Option Nat → Option Nat → Option Nat)
    (bundle regClass hintReg : Nat) (req : Requirement) : Nat → Nat → Env → Except Abort Env
  | 0, _, _ => .error .diverge
  | fuel + 1, attempts, s =>
    match processAttempt ctx limit s bundle regClass hintReg req (attempts + 1) with
    | .error e => .error e
    | .ok (.done s) => .ok s
    | .ok (.evict bundles) =>
      attemptLoop ctx limit bundle regClass hintReg req fuel (attempts + 1) (evictAll ctx s bundles)

/-- Lines 773-779: the bundle's ranges move to the existing spill bundle. -/
def moveToSpillBundle (s : Env) (bundle spill : Nat) : Env :=
  let list := (s.bundles bundle).ranges
  let s := s.updateBundle bundle fun b => { b with ranges := [] }
  let s := list.foldl (fun s entry => s.updateRange entry.index fun r => { r with bundle := spill }) s
  s.updateBundle spill fun b => { b with ranges := b.ranges ++ list }

/-- `process_bundle`, with the scan limit as a parameter. -/
def processBundleWith (ctx : Ctx) (limit : Option Nat → Option Nat → Option Nat) (s : Env)
    (bundle regHint : Nat) : Except Abort Env :=
  let ssidx := (s.bundles bundle).spillset
  let regClass := (s.spillsets ssidx).class
  let hintReg := if regHint ≠ ctx.invalidPReg then regHint else (s.spillsets ssidx).regHint
  let hintReg := if (s.pregs hintReg).isStack then ctx.invalidPReg else hintReg
  match ctx.computeRequirement s bundle with
  | .error splitPoint => splitAndRequeueBundle ctx s bundle splitPoint regHint
  | .ok req =>
    match req, (getOrCreateSpillBundle s bundle false).1 with
    | .any, some spill => .ok (moveToSpillBundle s bundle spill)
    | _, _ => attemptLoop ctx limit bundle regClass hintReg req 2 0 s

def processBundle (ctx : Ctx) : Env → Nat → Nat → Except Abort Env :=
  processBundleWith ctx scanLimitCost

/-- The entry the scan of `PrioQueue::pop` keeps: a later entry replaces it only with a strictly
higher priority. -/
def pickHigher (best : Option PrioQueueEntry) (e : PrioQueueEntry) : Option PrioQueueEntry :=
  match best with
  | none => some e
  | some b => if b.prio < e.prio then some e else some b

/-- Modelled from the spec: `PrioQueue::pop` (not under src/) takes the entry of highest
priority, the earliest inserted among equals. -/
def popQueue (queue : List PrioQueueEntry) : Option (PrioQueueEntry × List PrioQueueEntry) :=
  match queue.foldl pickHigher none with
  | none => none
  | some e => some (e, queue.erase e)

/-- `process_bundles`, run for at most `fuel` iterations. -/
def processBundles (ctx : Ctx) : Nat → Env → Except Abort Env
  | 0, _ => .error .diverge
  | fuel + 1, s =>
    match popQueue s.allocationQueue with
    | none => .ok s
    | some (entry, queue) =>
      match processBundle ctx { s with allocationQueue := queue } entry.bundle entry.regHint with
      | .error e => .error e
      | .ok s => processBundles ctx fuel s

/-- One iteration of `process_bundles`, popping any queued entry. -/
inductive Step (ctx : Ctx) : Env → Env → Prop where
  | process {s s' : Env} {entry : PrioQueueEntry} (queued : entry ∈ s.allocationQueue)
      (processed : processBundle ctx { s with allocationQueue := s.allocationQueue.erase entry }
        entry.bundle entry.regHint = .ok s') :
      Step ctx s s'

/-- The states a run of `process_bundles` can reach from `s`. -/
def Reachable (ctx : Ctx) : Env → Env → Prop := Relation.ReflTransGen (Step ctx)

end IonRegalloc
