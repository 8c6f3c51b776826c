import IonRegalloc.Data.Env

/-! Cached bundle and range properties and the per-spillset spill bundle (process.rs lines
263-391). -/

namespace IonRegalloc

def OperandConstraint.isFixedReg : OperandConstraint → Bool
  | .fixedReg _ => true
  | _ => false

/-- Modelled from the spec: `compute_bundle_prio` (not under src/) is the bundle's total live
length, the sum of the lengths of its ranges. -/
def computeBundlePrio (s : Env) (bundle : Nat) : Nat :=
  ((s.bundles bundle).ranges.map fun entry => entry.range.len).sum

/-- A bundle is minimal when its first point and the point before its end lie in one
instruction (line 306). -/
def spansOneInst (bundleStart bundleEnd : Nat) : Bool :=
  ProgPoint.inst bundleStart = ProgPoint.inst (ProgPoint.prev bundleEnd)

/-- The spill weight `recompute_bundle_properties` caches (lines 310-340). -/
def bundleWeight (ctx : Ctx) (minimal fixed : Bool) (total prio : Nat) : Nat :=
  if minimal then
    if fixed then ctx.minimalFixedBundleSpillWeight else ctx.minimalBundleSpillWeight
  else if 0 < prio then min ctx.bundleMaxNormalSpillWeight (total / prio) else 0

/-- The `(minimal, fixed, stack)` flags of `recompute_bundle_properties` (lines 283-307),
from the bundle's first range entry and its end. The scans of the first range's uses stop once
both flags are set, which does not change them, so they are `any`. -/
def bundleFlags (s : Env) (first : LiveRangeListEntry) (bundleEnd : Nat) : Bool × Bool × Bool :=
  let firstRangeData := s.ranges first.index
  match firstRangeData.vreg with
  | none => (true, true, false)
  | some _ =>
    (spansOneInst first.range.from bundleEnd,
      firstRangeData.uses.any fun u => u.operand.constraint.isFixedReg,
      firstRangeData.uses.any fun u => u.operand.constraint = OperandConstraint.stack)

def recomputeBundleProperties (ctx : Ctx) (s : Env) (bundle : Nat) : Except Abort Env :=
  match (s.bundles bundle).ranges with
  | [] => .error (.panic indexOutOfBounds)
  | first :: rest =>
    let prio := computeBundlePrio s bundle
    let flags := bundleFlags s first ((first :: rest).getLast (List.cons_ne_nil _ _)).range.to
    let total := ((first :: rest).map fun (entry : LiveRangeListEntry) =>
      (s.ranges entry.index).usesSpillWeight).sum
    .ok (s.updateBundle bundle fun b =>
      { b with prio, spillWeight := bundleWeight ctx flags.1 flags.2.1 total prio,
               minimal := flags.1, fixed := flags.2.1, stack := flags.2.2 })

/-- What `recompute_bundle_properties` changes: the bundle's cached priority, weight and
flags, the weight computed from the flags. -/
theorem recomputeBundleProperties_eq {ctx : Ctx} {s s' : Env} {bundle : Nat}
    (recomputed : recomputeBundleProperties ctx s bundle = .ok s') :
    ∃ flags : Bool × Bool × Bool, ∃ total, s' = s.updateBundle bundle fun b =>
      { b with prio := computeBundlePrio s bundle,
               spillWeight := bundleWeight ctx flags.1 flags.2.1 total (computeBundlePrio s bundle),
               minimal := flags.1, fixed := flags.2.1, stack := flags.2.2 } := by
  unfold recomputeBundleProperties at recomputed
  split at recomputed
  · cases recomputed
  · cases recomputed; exact ⟨_, _, rfl⟩

theorem recomputeBundleProperties_ok (ctx : Ctx) {s : Env} {bundle : Nat}
    (nonempty : (s.bundles bundle).ranges ≠ []) :
    ∃ s', recomputeBundleProperties ctx s bundle = .ok s' := by
  unfold recomputeBundleProperties
  split
  · contradiction
  · exact ⟨_, rfl⟩

def minimalBundle (s : Env) (bundle : Nat) : Bool := (s.bundles bundle).minimal

/-- `recompute_range_properties`: the uses' total weight, and `StartsAtDef` when the first
use is a def. The flag is set here and never cleared. -/
def recomputeRangeProperties (s : Env) (range : Nat) : Env :=
  s.updateRange range fun r =>
    { r with usesSpillWeight := (r.uses.map Use.weight).sum,
             startsAtDef := r.startsAtDef || r.uses.head?.any fun u => u.operand.kind = .Def }

/-- `get_or_create_spill_bundle`. -/
def getOrCreateSpillBundle (s : Env) (bundle : Nat) (createIfAbsent : Bool) : Option Nat × Env :=
  let ssidx := (s.bundles bundle).spillset
  match (s.spillsets ssidx).spillBundle with
  | some idx => (some idx, s)
  | none =>
    if createIfAbsent then
      let (idx, s) := s.createBundle
      let s := s.updateSpillSet ssidx fun ss => { ss with spillBundle := some idx }
      let s := s.updateBundle idx fun b => { b with spillset := ssidx }
      (some idx, { s with spilledBundles := s.spilledBundles ++ [idx] })
    else (none, s)

theorem getOrCreateSpillBundle_of_some {s : Env} {bundle spill : Nat}
    (found : (s.spillsets (s.bundles bundle).spillset).spillBundle = some spill) :
    getOrCreateSpillBundle s bundle true = (some spill, s) := by
  simp [getOrCreateSpillBundle, found]

/-- A spillset without a spill bundle gets a fresh, empty one, recorded as its spill bundle and
as spilled. -/
theorem getOrCreateSpillBundle_of_none {s : Env} {bundle : Nat}
    (absent : (s.spillsets (s.bundles bundle).spillset).spillBundle = none) :
    getOrCreateSpillBundle s bundle true = (some s.numBundles,
      { s with
        bundles := Function.update s.bundles s.numBundles
          ⟨[], (s.bundles bundle).spillset, .none, 0, 0, false, false, false⟩
        numBundles := s.numBundles + 1
        spillsets := Function.update s.spillsets (s.bundles bundle).spillset
          { s.spillsets (s.bundles bundle).spillset with spillBundle := some s.numBundles }
        spilledBundles := s.spilledBundles ++ [s.numBundles] }) := by
  simp [getOrCreateSpillBundle, absent, Env.createBundle, Env.updateSpillSet, Env.updateBundle]

end IonRegalloc
