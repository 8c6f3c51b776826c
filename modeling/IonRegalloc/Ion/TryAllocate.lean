import IonRegalloc.Data.Env

/-! `try_to_allocate_bundle_to_reg`, `evict_bundle` and the spill-weight readers (process.rs lines
56-261). Each `'alloc` loop gets one more step of fuel than the map has entries. -/

namespace IonRegalloc

/-- The scan's accumulators: `conflicts`, `max_conflict_weight` and `first_conflict`.
`conflict_set` always holds the bundles of `conflicts`, so membership is read from the list. -/
structure ConflictScan where
  conflicts : List Nat
  maxConflictWeight : Nat
  firstConflict : Option Nat
deriving DecidableEq, Repr

/-- How the `'alloc` loop of one bundle range ends. -/
inductive AllocLoopExit where
  | breakAlloc (iter : AllocMap) (scan : ConflictScan)
  | breakRanges (scan : ConflictScan)
  | early (result : AllocRegResult)
  | diverge
deriving DecidableEq, Repr

/-- How the `'ranges` loop ends. -/
inductive ScanExit where
  | finished (scan : ConflictScan)
  | early (result : AllocRegResult)
  | diverge
deriving DecidableEq, Repr

/-- `max_allowable_cost.is_some() && max_conflict_weight > max_allowable_cost.unwrap()`. -/
def exceedsCost (maxAllowableCost : Option Nat) (weight : Nat) : Bool :=
  match maxAllowableCost with
  | some cost => cost < weight
  | none => false

/-- Sets `first_conflict` to the overlap's first point unless one is recorded already. -/
def ConflictScan.noteFirst (scan : ConflictScan) (pregKey key : LiveRangeKey) : ConflictScan :=
  match scan.firstConflict with
  | none => { scan with firstConflict := some (ProgPoint.fromIndex (max pregKey.from key.from)) }
  | some _ => scan

@[simp] theorem ConflictScan.noteFirst_conflicts (scan : ConflictScan) (pregKey key : LiveRangeKey) :
    (scan.noteFirst pregKey key).conflicts = scan.conflicts := by
  unfold ConflictScan.noteFirst; split <;> rfl

@[simp] theorem ConflictScan.noteFirst_maxConflictWeight (scan : ConflictScan)
    (pregKey key : LiveRangeKey) :
    (scan.noteFirst pregKey key).maxConflictWeight = scan.maxConflictWeight := by
  unfold ConflictScan.noteFirst; split <;> rfl

@[simp] theorem ConflictScan.noteFirst_firstConflict (scan : ConflictScan)
    (pregKey key : LiveRangeKey) :
    (scan.noteFirst pregKey key).firstConflict =
      scan.firstConflict.or (some (max pregKey.from key.from)) := by
  unfold ConflictScan.noteFirst; split <;> simp_all

/-- The PReg entry `(pregKey, pregRange)` overlaps the bundle range `key` (lines 152-191):
`.error r` returns `r` from the function, `.ok scan` continues with updated accumulators. -/
def recordConflict (s : Env) (maxAllowableCost : Option Nat) (key pregKey : LiveRangeKey) :
    Option Nat → ConflictScan → Except AllocRegResult ConflictScan
  | none, scan =>
    .error (.conflictWithFixed scan.maxConflictWeight (ProgPoint.fromIndex pregKey.from))
  | some lr, scan =>
    let conflictBundle := (s.ranges lr).bundle
    if conflictBundle ∈ scan.conflicts then .ok (scan.noteFirst pregKey key)
    else
      let weight := max scan.maxConflictWeight (s.bundles conflictBundle).spillWeight
      if exceedsCost maxAllowableCost weight then .error .conflictHighCost
      else .ok ({ scan with conflicts := scan.conflicts ++ [conflictBundle],
                            maxConflictWeight := weight }.noteFirst pregKey key)

/-- The `'alloc` loop for the bundle range `range`, from the PReg iterator `iter` after
`skips` consecutive skips. Every 16 skips it re-seeks the map at `range.from`. -/
def allocLoop (s : Env) (reg : Nat) (maxAllowableCost : Option Nat) (range : CodeRange) :
    Nat → AllocMap → Nat → ConflictScan → AllocLoopExit
  | 0, _, _, _ => .diverge
  | fuel + 1, iter, skips, scan =>
    let key := LiveRangeKey.fromRange range
    match iter with
    | [] => .breakRanges scan
    | (pregKey, pregRange) :: rest =>
      if pregKey.cmp key = .lt then
        if 16 ≤ skips + 1 then
          allocLoop s reg maxAllowableCost range fuel
            ((s.pregs reg).allocations.rangeFrom (LiveRangeKey.fromRange ⟨range.from, range.from⟩))
            0 scan
        else allocLoop s reg maxAllowableCost range fuel rest (skips + 1) scan
      else if pregKey.cmp key = .gt then .breakAlloc iter scan
      else
        match recordConflict s maxAllowableCost key pregKey pregRange scan with
        | .error result => .early result
        | .ok scan => allocLoop s reg maxAllowableCost range fuel rest 0 scan

/-- The `'ranges` loop over the bundle's ranges, sharing one PReg iterator. -/
def rangesLoop (s : Env) (reg : Nat) (maxAllowableCost : Option Nat) (fuel : Nat) :
    List LiveRangeListEntry → AllocMap → ConflictScan → ScanExit
  | [], _, scan => .finished scan
  | entry :: rest, iter, scan =>
    match allocLoop s reg maxAllowableCost entry.range fuel iter 0 scan with
    | .breakAlloc iter scan => rangesLoop s reg maxAllowableCost fuel rest iter scan
    | .breakRanges scan => .finished scan
    | .early result => .early result
    | .diverge => .diverge

/-- Lines 203-208: insert every range of the bundle into the PReg map. -/
def insertRanges (ranges : List LiveRangeListEntry) (m : AllocMap) : AllocMap :=
  ranges.foldl (fun m entry => m.insert (LiveRangeKey.fromRange entry.range) (some entry.index)) m

/-- Lines 199-208: the bundle is assigned to `reg` and its ranges enter the map. -/
def assignBundle (s : Env) (bundle reg : Nat) : Env :=
  (s.updateBundle bundle fun b => { b with allocation := .reg reg }).updatePReg reg fun p =>
    { p with allocations := insertRanges (s.bundles bundle).ranges p.allocations }

/-- Lines 195-210: a scan that found conflicts reports them at its first conflict point; one
that found none assigns the bundle to `reg`. -/
def concludeScan (s : Env) (bundle reg : Nat) (scan : ConflictScan) :
    Except Abort (AllocRegResult × Env) :=
  if 0 < scan.conflicts.length then
    match scan.firstConflict with
    | some point => .ok (.conflict scan.conflicts point, s)
    | none => .error (.panic unwrapNone)
  else .ok (.allocated (.reg reg), assignBundle s bundle reg)

def tryToAllocateBundleToReg (s : Env) (bundle reg : Nat) (maxAllowableCost : Option Nat) :
    Except Abort (AllocRegResult × Env) :=
  let bundleRanges := (s.bundles bundle).ranges
  match bundleRanges.head? with
  | none => .error (.panic unwrapNone)
  | some first =>
    let allocations := (s.pregs reg).allocations
    let iter := allocations.rangeFrom (LiveRangeKey.fromRange ⟨first.range.from, first.range.from⟩)
    match rangesLoop s reg maxAllowableCost (allocations.length + 1) bundleRanges iter
        ⟨[], 0, none⟩ with
    | .diverge => .error .diverge
    | .early result => .ok (result, s)
    | .finished scan => concludeScan s bundle reg scan

/-- Lines 231-237: remove every range of the bundle from the PReg map. -/
def removeRanges (ranges : List LiveRangeListEntry) (m : AllocMap) : AllocMap :=
  ranges.foldl (fun m entry => m.remove (LiveRangeKey.fromRange entry.range)) m

/-- `evict_bundle`: an allocated bundle leaves its register and goes back to the queue with
an invalid hint; an unallocated one is left alone. -/
def evictBundle (ctx : Ctx) (s : Env) (bundle : Nat) : Env :=
  match (s.bundles bundle).allocation.asReg with
  | none => s
  | some preg =>
    let s := s.updateBundle bundle fun b => { b with allocation := .none }
    let s := s.updatePReg preg fun p =>
      { p with allocations := removeRanges (s.bundles bundle).ranges p.allocations }
    s.enqueue bundle (s.bundles bundle).prio ctx.invalidPReg

def bundleSpillWeight (s : Env) (bundle : Nat) : Nat := (s.bundles bundle).spillWeight

/-- `maximum_spill_weight_in_bundle_set`: `.max().unwrap_or(0)`, a fold since weights are
naturals. -/
def maximumSpillWeightInBundleSet (s : Env) (bundles : List Nat) : Nat :=
  bundles.foldl (fun m b => max m (s.bundles b).spillWeight) 0

end IonRegalloc
