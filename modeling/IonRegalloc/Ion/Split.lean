import Mathlib.Data.List.Basic
import IonRegalloc.Ion.Properties

/-! `split_and_requeue_bundle` (process.rs lines 393-727), one definition per step. The trimming
loops get one step of fuel more than the list they pop from. -/

namespace IonRegalloc

/-- The first use in the bundle, taking its ranges in order (lines 431-437). -/
def firstUseInBundle (s : Env) (ranges : List LiveRangeListEntry) : Option Nat :=
  ((ranges.flatMap fun entry => (s.ranges entry.index).uses).head?).map Use.pos

/-- Lines 426-472: a split at the bundle's start peels off its first use; otherwise an After
point moves to the next Before point, stepping back two points if that reaches the end. -/
def normalizeSplitAt (s : Env) (ranges : List LiveRangeListEntry)
    (bundleStart bundleEnd splitAt : Nat) : Nat :=
  if splitAt = bundleStart then
    match firstUseInBundle s ranges with
    | some pos =>
      if ProgPoint.inst pos = ProgPoint.inst bundleStart then
        ProgPoint.before (ProgPoint.inst pos + 1)
      else ProgPoint.before (ProgPoint.inst pos)
    | none => ProgPoint.before (ProgPoint.inst bundleStart + 1)
  else
    let splitAt := if ProgPoint.pos splitAt = .after then ProgPoint.next splitAt else splitAt
    if bundleEnd ≤ splitAt then ProgPoint.prev (ProgPoint.prev splitAt) else splitAt

/-- Lines 482-493: `(last_lr_in_old_bundle_idx, first_lr_in_new_bundle_idx)`, scanning from
index `i` with the values found so far. -/
def splitIndices (splitAt : Nat) : List LiveRangeListEntry → Nat → Nat × Nat → Nat × Nat
  | [], _, found => found
  | entry :: rest, i, found =>
    let found := if entry.range.from < splitAt then (i, i) else found
    if splitAt < entry.range.to then (found.1, i) else splitIndices splitAt rest (i + 1) found

/-- Lines 518-560: if the first range of the new list straddles the split, the part from the
split on becomes a new live range with the uses at or after the split, the old range ends at
the split, and the new range is appended to its vreg's list. -/
def splitStraddle (s : Env) (bundle last splitAt : Nat) :
    List LiveRangeListEntry → Except Abort (Env × List LiveRangeListEntry)
  | [] => .error (.panic indexOutOfBounds)
  | head :: tail =>
    if head.range.from < splitAt then
      let origLr := head.index
      let (newLr, s) := s.createLiverange ⟨splitAt, head.range.to⟩
      let s := s.updateRange newLr fun r => { r with vreg := (s.ranges origLr).vreg }
      let uses := (s.ranges origLr).uses
      let firstUse := uses.findIdx fun u => splitAt ≤ u.pos
      let s := s.updateRange newLr fun r => { r with uses := uses.drop firstUse }
      let s := s.updateRange origLr fun r => { r with uses := r.uses.take firstUse }
      let s := recomputeRangeProperties s origLr
      let s := recomputeRangeProperties s newLr
      let head := { head with index := newLr, range := (s.ranges newLr).range }
      let s := s.updateRange origLr fun r => { r with range := { r.range with «to» := splitAt } }
      if last < (s.bundles bundle).ranges.length then
        let s := s.updateBundle bundle fun b =>
          { b with ranges := b.ranges.modify (fun e => { e with range := (s.ranges origLr).range })
                               last }
        match (s.ranges newLr).vreg with
        | none => .error (.panic indexOutOfBounds)
        | some v =>
          .ok (s.updateVReg v fun d => { d with ranges := d.ranges ++ [⟨(s.ranges newLr).range, newLr⟩] },
            head :: tail)
      else .error (.panic indexOutOfBounds)
    else .ok (s, head :: tail)

/-- Lines 562-568: a fresh bundle in the same spillset takes the new list. -/
def moveToNewBundle (s : Env) (spillset : Nat) (newLrList : List LiveRangeListEntry) : Nat × Env :=
  let (newBundle, s) := s.createBundle
  let s := s.updateBundle newBundle fun b => { b with spillset }
  let s := newLrList.foldl (fun s entry => s.updateRange entry.index fun r => { r with bundle := newBundle }) s
  (newBundle, s.updateBundle newBundle fun b => { b with ranges := newLrList })

/-- Lines 598-641: the bundle's last range now ends at `split`, and `[split, rangeEnd)`
becomes a new use-free range of the spill bundle, recorded in the vreg's list. -/
def cutTail (s : Env) (bundle spill split rangeEnd : Nat) (vreg : Option Nat) : Except Abort Env :=
  let s := s.updateBundle bundle fun b =>
    { b with ranges := b.ranges.modifyLast fun e => { e with range := { e.range with «to» := split } } }
  match (s.bundles bundle).ranges.getLast? with
  | none => .error (.panic unwrapNone)
  | some last =>
    let s := s.updateRange last.index fun r => { r with range := { r.range with «to» := split } }
    let range : CodeRange := ⟨split, rangeEnd⟩
    let (emptyLr, s) := s.createLiverange range
    let s := s.updateBundle spill fun b => { b with ranges := b.ranges ++ [⟨range, emptyLr⟩] }
    let s := s.updateRange emptyLr fun r => { r with bundle := spill }
    match vreg with
    | none => .error (.panic indexOutOfBounds)
    | some v => .ok (s.updateVReg v fun d => { d with ranges := d.ranges ++ [⟨range, emptyLr⟩] })

/-- Lines 577-643: while the bundle's last range has no uses, move it to the spill bundle;
then cut the use-free part after the last use's instruction into a new spill-bundle range. -/
def trimTail (s : Env) (bundle : Nat) : Nat → Except Abort Env
  | 0 => .error .diverge
  | fuel + 1 =>
    match (s.bundles bundle).ranges.getLast? with
    | none => .ok s
    | some entry =>
      let rangeEnd := entry.range.to
      let vreg := (s.ranges entry.index).vreg
      match (s.ranges entry.index).uses.getLast? with
      | none =>
        match getOrCreateSpillBundle s bundle true with
        | (none, _) => .error (.panic unwrapNone)
        | (some spill, s) =>
          let s := s.updateBundle spill fun b => { b with ranges := b.ranges ++ [entry] }
          let s := s.updateBundle bundle fun b => { b with ranges := b.ranges.dropLast }
          let s := s.updateRange entry.index fun r => { r with bundle := spill }
          trimTail s bundle fuel
      | some lastUse =>
        let split := ProgPoint.before (ProgPoint.inst lastUse.pos + 1)
        if split < rangeEnd then
          match getOrCreateSpillBundle s bundle true with
          | (none, _) => .error (.panic unwrapNone)
          | (some spill, s) => cutTail s bundle spill split rangeEnd vreg
        else .ok s

/-- Lines 668-711: the bundle's first range now starts at `split`, and `[rangeStart, split)`
becomes a new use-free range of the spill bundle, recorded in the vreg's list. -/
def cutHead (s : Env) (bundle spill split rangeStart : Nat) (vreg : Option Nat) : Except Abort Env :=
  let s := s.updateBundle bundle fun b =>
    { b with ranges := b.ranges.modifyHead fun e => { e with range := { e.range with «from» := split } } }
  match (s.bundles bundle).ranges.head? with
  | none => .error (.panic unwrapNone)
  | some first =>
    let s := s.updateRange first.index fun r => { r with range := { r.range with «from» := split } }
    let range : CodeRange := ⟨rangeStart, split⟩
    let (emptyLr, s) := s.createLiverange range
    let s := s.updateBundle spill fun b => { b with ranges := b.ranges ++ [⟨range, emptyLr⟩] }
    let s := s.updateRange emptyLr fun r => { r with bundle := spill }
    match vreg with
    | none => .error (.panic indexOutOfBounds)
    | some v => .ok (s.updateVReg v fun d => { d with ranges := d.ranges ++ [⟨range, emptyLr⟩] })

/-- Lines 644-713: the same at the front of the new bundle, unless its first range carries
`StartsAtDef`, which stands for a def at its start. -/
def trimHead (s : Env) (bundle : Nat) : Nat → Except Abort Env
  | 0 => .error .diverge
  | fuel + 1 =>
    match (s.bundles bundle).ranges.head? with
    | none => .ok s
    | some entry =>
      if (s.ranges entry.index).startsAtDef then .ok s
      else
        let start := entry.range.from
        let vreg := (s.ranges entry.index).vreg
        match (s.ranges entry.index).uses.head? with
        | none =>
          match getOrCreateSpillBundle s bundle true with
          | (none, _) => .error (.panic unwrapNone)
          | (some spill, s) =>
            let s := s.updateBundle spill fun b => { b with ranges := b.ranges ++ [entry] }
            let s := s.updateBundle bundle fun b => { b with ranges := b.ranges.drop 1 }
            let s := s.updateRange entry.index fun r => { r with bundle := spill }
            trimHead s bundle fuel
        | some firstUse =>
          let split := ProgPoint.before (ProgPoint.inst firstUse.pos)
          if start < split then
            match getOrCreateSpillBundle s bundle true with
            | (none, _) => .error (.panic unwrapNone)
            | (some spill, s) => cutHead s bundle spill split start vreg
          else .ok s

/-- Lines 715-726: a bundle that kept some range gets its properties recomputed and is queued. -/
def requeueIfNonempty (ctx : Ctx) (s : Env) (bundle regHint : Nat) : Except Abort Env :=
  if 0 < (s.bundles bundle).ranges.length then
    match recomputeBundleProperties ctx s bundle with
    | .error e => .error e
    | .ok s => .ok (s.enqueue bundle (s.bundles bundle).prio regHint)
  else .ok s

def splitAndRequeueBundle (ctx : Ctx) (s : Env) (bundle splitAt regHint : Nat) :
    Except Abort Env := do
  let spillset := (s.bundles bundle).spillset
  let ranges := (s.bundles bundle).ranges
  let some firstEntry := ranges.head? | .error (.panic unwrapNone)
  let some lastEntry := ranges.getLast? | .error (.panic unwrapNone)
  let splitAt := normalizeSplitAt s ranges firstEntry.range.from lastEntry.range.to splitAt
  let (last, first) := splitIndices splitAt ranges 0 (0, 0)
  let s := s.updateBundle bundle fun b => { b with ranges := b.ranges.take (last + 1) }
  let (s, newLrList) ← splitStraddle s bundle last splitAt (ranges.drop first)
  let (newBundle, s) := moveToNewBundle s spillset newLrList
  let s ← trimTail s bundle ((s.bundles bundle).ranges.length + 1)
  let s ← trimHead s newBundle ((s.bundles newBundle).ranges.length + 1)
  let s ← requeueIfNonempty ctx s bundle regHint
  requeueIfNonempty ctx s newBundle regHint

end IonRegalloc
