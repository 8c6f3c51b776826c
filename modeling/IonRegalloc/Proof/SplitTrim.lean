import Mathlib.Data.List.Perm.Basic
import IonRegalloc.Proof.SplitPoint

/-! `SplitInv`, the invariant between the steps of `split_and_requeue_bundle`, and the trimming
loops that keep it. -/

namespace IonRegalloc

/-- Every program point a list of ranges covers, with repeats. -/
def entryPoints (entries : List LiveRangeListEntry) : List Nat :=
  entries.flatMap fun e => List.range' e.range.from e.range.len

/-- The uses of the live ranges of a list, read from the arena. -/
def entryUses (s : Env) (entries : List LiveRangeListEntry) : List Use :=
  entries.flatMap fun e => (s.ranges e.index).uses

/-- The ranges of a spillset's spill bundle; none while it has none. -/
def spillRanges (s : Env) (spillset : Nat) : List LiveRangeListEntry :=
  match (s.spillsets spillset).spillBundle with
  | none => []
  | some sb => (s.bundles sb).ranges

/-- The bundle's list, the new bundle's list and the ranges added to the spill bundle. -/
def splitPieces (s : Env) (bundle newBundle : Nat) (added : List LiveRangeListEntry) :
    List LiveRangeListEntry :=
  (s.bundles bundle).ranges ++ (s.bundles newBundle).ranges ++ added

/-- The bundle's last range, if any, has a use and ends by the Before point after it. -/
def TailTrimmed (s : Env) (bundle : Nat) : Prop :=
  ∀ last ∈ (s.bundles bundle).ranges.getLast?, ∃ u ∈ (s.ranges last.index).uses.getLast?,
    last.range.to ≤ ProgPoint.before (ProgPoint.inst u.pos + 1)

/-- The bundle's first range, if any, starts at a def, or has a use and starts no earlier than
the Before point of its instruction. -/
def HeadTrimmed (s : Env) (bundle : Nat) : Prop :=
  ∀ first ∈ (s.bundles bundle).ranges.head?, (s.ranges first.index).startsAtDef = true ∨
    ∃ u ∈ (s.ranges first.index).uses.head?, ProgPoint.before (ProgPoint.inst u.pos) ≤ first.range.from

section Lists

variable {s s' : Env} {l l' : List LiveRangeListEntry}

@[simp] theorem entryPoints_nil : entryPoints [] = [] := rfl

@[simp] theorem entryPoints_cons (e : LiveRangeListEntry) (l : List LiveRangeListEntry) :
    entryPoints (e :: l) = List.range' e.range.from e.range.len ++ entryPoints l := rfl

@[simp] theorem entryPoints_append (l l' : List LiveRangeListEntry) :
    entryPoints (l ++ l') = entryPoints l ++ entryPoints l' := List.flatMap_append _ _ _

@[simp] theorem entryUses_nil : entryUses s [] = [] := rfl

@[simp] theorem entryUses_cons (e : LiveRangeListEntry) (l : List LiveRangeListEntry) :
    entryUses s (e :: l) = (s.ranges e.index).uses ++ entryUses s l := rfl

@[simp] theorem entryUses_append (l l' : List LiveRangeListEntry) :
    entryUses s (l ++ l') = entryUses s l ++ entryUses s l' := List.flatMap_append _ _ _

theorem entryUses_congr (same : ∀ e ∈ l, (s'.ranges e.index).uses = (s.ranges e.index).uses) :
    entryUses s' l = entryUses s l := by
  induction l with
  | nil => rfl
  | cons e rest ih =>
    simp only [entryUses_cons, same e (List.mem_cons_self _ _),
      ih fun x member => same x (List.mem_cons_of_mem _ member)]

theorem range'_cut {f q t : Nat} (le₁ : f ≤ q) (le₂ : q ≤ t) :
    List.range' f (q - f) ++ List.range' q (t - q) = List.range' f (t - f) := by
  have := List.range'_append_1 f (q - f) (t - q)
  rw [Nat.add_sub_cancel' le₁] at this
  rw [this]; congr 1; omega

theorem UsesInside.congr {r r' : LiveRange} (inside : UsesInside r) (range : r'.range = r.range)
    (uses : r'.uses = r.uses) : UsesInside r' where
  sorted := uses ▸ inside.sorted
  inside u member := range ▸ inside.inside u (uses ▸ member)

theorem entryUses_of_ranges (same : s'.ranges = s.ranges) : entryUses s' l = entryUses s l := by
  simp [entryUses, same]

theorem ListReady.congr (ready : ListReady s l)
    (same : ∀ e ∈ l, (s'.ranges e.index).range = (s.ranges e.index).range ∧
      (s'.ranges e.index).uses = (s.ranges e.index).uses) : ListReady s' l where
  sorted := ready.sorted
  arena e member := (same e member).1.trans (ready.arena e member)
  usesInside e member := (ready.usesInside e member).congr (same e member).1 (same e member).2

theorem ListReady.nodup_index (ready : ListReady s l) : (l.map (·.index)).Nodup := by
  refine List.Nodup.map_on (fun a memberA b memberB same => ?_) (KeysSorted.nodup ready.sorted)
  have ranges : a.range = b.range := by
    rw [← ready.arena a memberA, ← ready.arena b memberB, same]
  apply KeysSorted.eq_of_overlaps ready.sorted memberA memberB
  have := KeysSorted.nonempty ready.sorted a memberA
  simp only [LiveRangeKey.Overlaps, LiveRangeKey.fromRange_from, LiveRangeKey.fromRange_to,
    ranges] at this ⊢
  omega

theorem RangesSorted.nodup_points (sorted : RangesSorted l) : (entryPoints l).Nodup := by
  induction l with
  | nil => exact List.nodup_nil
  | cons e rest ih =>
    obtain ⟨-, below, restSorted⟩ := (KeysSorted.cons_iff e).mp sorted
    refine List.nodup_append.mpr ⟨List.nodup_range' _ _, ih restSorted, ?_⟩
    intro x here there
    have := List.mem_range'_1.mp here
    obtain ⟨e', member, inE'⟩ := List.mem_flatMap.mp there
    have := below e' member
    have := List.mem_range'_1.mp inE'
    simp only [LiveRangeKey.fromRange_to, LiveRangeKey.fromRange_from, CodeRange.len] at *
    omega

end Lists

section Uses

variable (point : Nat)

theorem take_findIdx_before : ∀ (uses : List Use),
    ∀ u ∈ uses.take (uses.findIdx fun u => point ≤ u.pos), u.pos < point
  | [], _, member => by simp at member
  | u :: rest, x, member => by
    by_cases here : point ≤ u.pos
    · simp [List.findIdx_cons, here] at member
    · simp only [List.findIdx_cons, here, decide_False, cond_false, List.take_succ_cons,
        List.mem_cons] at member
      rcases member with rfl | inRest
      · omega
      · exact take_findIdx_before rest x inRest

theorem drop_findIdx_after : ∀ (uses : List Use), uses.Pairwise (fun a b => a.pos ≤ b.pos) →
    ∀ u ∈ uses.drop (uses.findIdx fun u => point ≤ u.pos), point ≤ u.pos
  | [], _, _, member => by simp at member
  | u :: rest, sorted, x, member => by
    rw [List.pairwise_cons] at sorted
    by_cases here : point ≤ u.pos
    · simp only [List.findIdx_cons, here, decide_True, cond_true, List.drop_zero,
        List.mem_cons] at member
      rcases member with rfl | inRest
      · exact here
      · exact le_trans here (sorted.1 x inRest)
    · simp only [List.findIdx_cons, here, decide_False, cond_false, List.drop_succ_cons] at member
      exact drop_findIdx_after rest sorted.2 x member

theorem le_getLast?_pos {uses : List Use} (sorted : uses.Pairwise fun a b => a.pos ≤ b.pos)
    {last : Use} (found : uses.getLast? = some last) : ∀ u ∈ uses, u.pos ≤ last.pos := by
  obtain ⟨init, rfl⟩ := List.getLast?_eq_some_iff.mp found
  intro u member
  rcases List.mem_append.mp member with inInit | inLast
  · exact (List.pairwise_append.mp sorted).2.2 u inInit last (List.mem_singleton_self _)
  · rw [List.mem_singleton.mp inLast]

theorem head?_pos_le {uses : List Use} (sorted : uses.Pairwise fun a b => a.pos ≤ b.pos)
    {first : Use} (found : uses.head? = some first) : ∀ u ∈ uses, first.pos ≤ u.pos := by
  cases uses with
  | nil => simp at found
  | cons x rest =>
    cases found
    intro u member
    rcases List.mem_cons.mp member with rfl | inRest
    · exact le_rfl
    · exact List.rel_of_pairwise_cons sorted inRest

end Uses

@[simp 1100] theorem updateRange_owner (s : Env) (i x j : Nat) :
    (s.updateRange i fun r => { r with bundle := x }).ranges j =
      { s.ranges j with bundle := if j = i then x else (s.ranges j).bundle } := by
  simp only [Env.updateRange_ranges]; split <;> simp_all

/-- What `cutTail` does to a bundle ending in `entry`: the entry and its live range end at
`split`, and a new live range `[split, end)` joins the spill bundle and the vreg's list. -/
theorem cutTail_spec {s : Env} {bundle spill : Nat} {init : List LiveRangeListEntry}
    {entry : LiveRangeListEntry} (split v : Nat)
    (ranges : (s.bundles bundle).ranges = init ++ [entry]) (apart : spill ≠ bundle)
    (inArena : entry.index < s.numRanges) :
    ∃ s', cutTail s bundle spill split entry.range.to (some v) = .ok s' ∧
      s'.bundles = Function.update (Function.update s.bundles bundle
          { s.bundles bundle with
            ranges := init ++ [{ entry with range := { entry.range with «to» := split } }] })
        spill { s.bundles spill with
          ranges := (s.bundles spill).ranges ++ [⟨⟨split, entry.range.to⟩, s.numRanges⟩] } ∧
      s'.ranges = Function.update (Function.update s.ranges entry.index
          { s.ranges entry.index with range := { (s.ranges entry.index).range with «to» := split } })
        s.numRanges ⟨⟨split, entry.range.to⟩, none, spill, [], 0, false⟩ ∧
      s'.numRanges = s.numRanges + 1 ∧ s'.numBundles = s.numBundles ∧ s'.spillsets = s.spillsets ∧
      s'.vregs = Function.update s.vregs v
        { s.vregs v with ranges := (s.vregs v).ranges ++ [⟨⟨split, entry.range.to⟩, s.numRanges⟩] } ∧
      s'.pregs = s.pregs ∧ s'.allocationQueue = s.allocationQueue ∧
      s'.spilledBundles = s.spilledBundles := by
  have fresh : entry.index ≠ s.numRanges := by omega
  simp only [cutTail, Env.updateBundle_bundles, ranges, List.modifyLast_append_one, if_true,
    List.getLast?_concat]
  refine ⟨_, rfl, ?_, ?_, rfl, rfl, rfl, rfl, rfl, rfl, rfl⟩
  · funext x
    simp only [Env.updateVReg_bundles, Env.updateRange_bundles, Env.updateBundle_bundles,
      Env.createLiverange_bundles, Function.update_apply, ranges]
    split_ifs <;> simp_all [List.modifyLast_append_one]
  · funext i
    simp only [Env.updateVReg_ranges, Env.updateRange_ranges, Env.createLiverange_ranges,
      Env.updateBundle_ranges, Function.update_apply, Env.createLiverange_fst,
      Env.updateRange_numRanges, Env.updateBundle_numRanges]
    split_ifs <;> simp_all

/-- What `cutHead` does to a bundle starting with `entry`: the entry and its live range start
at `split`, and a new live range `[start, split)` joins the spill bundle and the vreg's list. -/
theorem cutHead_spec {s : Env} {bundle spill : Nat} {rest : List LiveRangeListEntry}
    {entry : LiveRangeListEntry} (split v : Nat)
    (ranges : (s.bundles bundle).ranges = entry :: rest) (apart : spill ≠ bundle)
    (inArena : entry.index < s.numRanges) :
    ∃ s', cutHead s bundle spill split entry.range.from (some v) = .ok s' ∧
      s'.bundles = Function.update (Function.update s.bundles bundle
          { s.bundles bundle with
            ranges := { entry with range := { entry.range with «from» := split } } :: rest })
        spill { s.bundles spill with
          ranges := (s.bundles spill).ranges ++ [⟨⟨entry.range.from, split⟩, s.numRanges⟩] } ∧
      s'.ranges = Function.update (Function.update s.ranges entry.index
          { s.ranges entry.index with
            range := { (s.ranges entry.index).range with «from» := split } })
        s.numRanges ⟨⟨entry.range.from, split⟩, none, spill, [], 0, false⟩ ∧
      s'.numRanges = s.numRanges + 1 ∧ s'.numBundles = s.numBundles ∧ s'.spillsets = s.spillsets ∧
      s'.vregs = Function.update s.vregs v
        { s.vregs v with
          ranges := (s.vregs v).ranges ++ [⟨⟨entry.range.from, split⟩, s.numRanges⟩] } ∧
      s'.pregs = s.pregs ∧ s'.allocationQueue = s.allocationQueue ∧
      s'.spilledBundles = s.spilledBundles := by
  have fresh : entry.index ≠ s.numRanges := by omega
  simp only [cutHead, Env.updateBundle_bundles, ranges, List.modifyHead_cons, if_true,
    List.head?_cons]
  refine ⟨_, rfl, ?_, ?_, rfl, rfl, rfl, rfl, rfl, rfl, rfl⟩
  · funext x
    simp only [Env.updateVReg_bundles, Env.updateRange_bundles, Env.updateBundle_bundles,
      Env.createLiverange_bundles, Function.update_apply, ranges]
    split_ifs <;> simp_all
  · funext i
    simp only [Env.updateVReg_ranges, Env.updateRange_ranges, Env.createLiverange_ranges,
      Env.updateBundle_ranges, Function.update_apply, Env.createLiverange_fst,
      Env.updateRange_numRanges, Env.updateBundle_numRanges]
    split_ifs <;> simp_all

theorem index_ne_of_nodup {l₁ l₂ : List LiveRangeListEntry} {e : LiveRangeListEntry}
    (nodup : ((l₁ ++ e :: l₂).map (·.index)).Nodup) : ∀ x ∈ l₁ ++ l₂, x.index ≠ e.index := by
  have := (List.nodup_cons.mp
    ((List.perm_middle.map fun x : LiveRangeListEntry => x.index).nodup_iff.mp nodup)).1
  exact fun x member same => this (List.mem_map.mpr ⟨x, member, same⟩)

theorem spillRanges_of_some {s : Env} {spillset sb : Nat}
    (spill : (s.spillsets spillset).spillBundle = some sb) :
    spillRanges s spillset = (s.bundles sb).ranges := by
  simp [spillRanges, spill]

/-- What `split_and_requeue_bundle` needs of the bundle it splits, besides a split point inside
it: the representation invariant, a vreg on each of its live ranges, handles inside the arenas,
and a spill bundle of its spillset, if there is one, other than the bundle. -/
structure SplitReady (s : Env) (bundle : Nat) : Prop where
  ready : ListReady s (s.bundles bundle).ranges
  vregs : ∀ e ∈ (s.bundles bundle).ranges, (s.ranges e.index).vreg.isSome
  inArena : ∀ e ∈ (s.bundles bundle).ranges, e.index < s.numRanges
  bundle_lt : bundle < s.numBundles
  spillApart : ∀ sb, (s.spillsets (s.bundles bundle).spillset).spillBundle = some sb →
    sb ≠ bundle ∧ sb < s.numBundles

/-- The invariant between the steps of a split of `bundle` of `origin` at `point`, with `added`
appended to the spill bundle so far; the queue and the PReg maps stay the origin's. -/
structure SplitInv (origin s : Env) (bundle newBundle spillset point : Nat)
    (added : List LiveRangeListEntry) : Prop where
  kept : ListReady s (s.bundles bundle).ranges
  moved : ListReady s (s.bundles newBundle).ranges
  keptBefore : ∀ e ∈ (s.bundles bundle).ranges, e.range.to ≤ point
  movedAfter : ∀ e ∈ (s.bundles newBundle).ranges, point ≤ e.range.from
  addedFree : ∀ e ∈ added, (s.ranges e.index).range = e.range ∧ e.range.from < e.range.to ∧
    (s.ranges e.index).uses = []
  points : (entryPoints (splitPieces s bundle newBundle added)).Perm
    (entryPoints (origin.bundles bundle).ranges)
  uses : (entryUses s (splitPieces s bundle newBundle added)).Perm
    (entryUses origin (origin.bundles bundle).ranges)
  distinct : ((splitPieces s bundle newBundle added).map (·.index)).Nodup
  inArena : ∀ e ∈ splitPieces s bundle newBundle added, e.index < s.numRanges
  vregs : ∀ e ∈ (s.bundles bundle).ranges ++ (s.bundles newBundle).ranges,
    (s.ranges e.index).vreg.isSome
  spillsets : (s.bundles bundle).spillset = spillset ∧ (s.bundles newBundle).spillset = spillset
  spilled : spillRanges s spillset = spillRanges origin spillset ++ added
  apart : bundle ≠ newBundle ∧ bundle < s.numBundles ∧ newBundle < s.numBundles
  spillApart : ∀ sb, (s.spillsets spillset).spillBundle = some sb →
    sb ≠ bundle ∧ sb ≠ newBundle ∧ sb < s.numBundles
  keptOwner : ∀ e ∈ (s.bundles bundle).ranges,
    (s.ranges e.index).bundle = (origin.ranges e.index).bundle
  movedOwner : ∀ e ∈ (s.bundles newBundle).ranges, (s.ranges e.index).bundle = newBundle
  addedOwner : ∀ e ∈ added, ∀ sb, (s.spillsets spillset).spillBundle = some sb →
    (s.ranges e.index).bundle = sb
  queue : s.allocationQueue = origin.allocationQueue
  pregs : s.pregs = origin.pregs

namespace SplitInv

variable {origin s s' : Env} {bundle newBundle spillset point : Nat}
  {added : List LiveRangeListEntry}

theorem transfer (inv : SplitInv origin s bundle newBundle spillset point added)
    (kept : (s'.bundles bundle).ranges = (s.bundles bundle).ranges)
    (moved : (s'.bundles newBundle).ranges = (s.bundles newBundle).ranges)
    (spillsets : (s'.bundles bundle).spillset = spillset ∧
      (s'.bundles newBundle).spillset = spillset)
    (ranges : s'.ranges = s.ranges) (numRanges : s'.numRanges = s.numRanges)
    (numBundles : s.numBundles ≤ s'.numBundles)
    (spilled : spillRanges s' spillset = spillRanges s spillset)
    (spillApart : ∀ sb, (s'.spillsets spillset).spillBundle = some sb →
      sb ≠ bundle ∧ sb ≠ newBundle ∧ sb < s'.numBundles)
    (addedOwner : ∀ e ∈ added, ∀ sb, (s'.spillsets spillset).spillBundle = some sb →
      (s.ranges e.index).bundle = sb)
    (frame : s'.allocationQueue = s.allocationQueue ∧ s'.pregs = s.pregs) :
    SplitInv origin s' bundle newBundle spillset point added := by
  have pieces : splitPieces s' bundle newBundle added = splitPieces s bundle newBundle added := by
    simp only [splitPieces, kept, moved]
  have same : ∀ e ∈ splitPieces s bundle newBundle added,
      (s'.ranges e.index).range = (s.ranges e.index).range ∧
        (s'.ranges e.index).uses = (s.ranges e.index).uses := by simp [ranges]
  exact {
    kept := kept ▸ inv.kept.congr fun e _ => by simp [ranges]
    moved := moved ▸ inv.moved.congr fun e _ => by simp [ranges]
    keptBefore := kept ▸ inv.keptBefore
    movedAfter := moved ▸ inv.movedAfter
    addedFree := by simpa [ranges] using inv.addedFree
    points := pieces ▸ inv.points
    uses := by rw [pieces, entryUses_of_ranges ranges]; exact inv.uses
    distinct := pieces ▸ inv.distinct
    inArena := by rw [pieces, numRanges]; exact inv.inArena
    vregs := by rw [kept, moved, ranges]; exact inv.vregs
    spillsets := spillsets
    spilled := spilled.trans inv.spilled
    apart := ⟨inv.apart.1, lt_of_lt_of_le inv.apart.2.1 numBundles,
      lt_of_lt_of_le inv.apart.2.2 numBundles⟩
    spillApart := spillApart
    keptOwner := by rw [kept, ranges]; exact inv.keptOwner
    movedOwner := by rw [moved, ranges]; exact inv.movedOwner
    addedOwner := by rw [ranges]; exact addedOwner
    queue := frame.1.trans inv.queue
    pregs := frame.2.trans inv.pregs }

theorem getOrCreate (inv : SplitInv origin s bundle newBundle spillset point added) {x : Nat}
    (which : x = bundle ∨ x = newBundle) :
    ∃ sb s', getOrCreateSpillBundle s x true = (some sb, s') ∧
      (s'.spillsets spillset).spillBundle = some sb ∧
      SplitInv origin s' bundle newBundle spillset point added ∧ s'.ranges = s.ranges ∧
      s'.numRanges = s.numRanges ∧ (s'.bundles sb).ranges = spillRanges s spillset ∧
      ∀ y, y ≠ sb → s'.bundles y = s.bundles y := by
  have ofX : (s.bundles x).spillset = spillset := by
    rcases which with rfl | rfl
    exacts [inv.spillsets.1, inv.spillsets.2]
  cases found : (s.spillsets spillset).spillBundle with
  | some sb =>
    exact ⟨sb, s, getOrCreateSpillBundle_of_some (ofX ▸ found), found, inv, rfl, rfl,
      (spillRanges_of_some found).symm, fun _ _ => rfl⟩
  | none =>
    have noneAdded : added = [] := by
      have := inv.spilled
      simp only [spillRanges, found] at this
      exact (List.append_eq_nil.mp this.symm).2
    have fresh : ∀ y, y < s.numBundles → y ≠ s.numBundles := fun _ h => Nat.ne_of_lt h
    refine ⟨s.numBundles, _, getOrCreateSpillBundle_of_none (ofX ▸ found),
      by simp [Function.update_apply, ofX],
      inv.transfer ?_ ?_ ?_ rfl rfl (by simp) ?_ ?_ ?_ ⟨rfl, rfl⟩, rfl, rfl, ?_, fun y ne => by simp [ne]⟩
    · simp [fresh bundle inv.apart.2.1]
    · simp [fresh newBundle inv.apart.2.2]
    · simpa [fresh bundle inv.apart.2.1, fresh newBundle inv.apart.2.2] using inv.spillsets
    · simp [spillRanges, Function.update_apply, ofX, found]
    · simp only [Function.update_apply, ofX, if_true, Option.some.injEq]
      rintro sb rfl
      exact ⟨(fresh bundle inv.apart.2.1).symm, (fresh newBundle inv.apart.2.2).symm, by simp⟩
    · simp [noneAdded]
    · simp [spillRanges, Function.update_apply, found]

theorem popLast (inv : SplitInv origin s bundle newBundle spillset point added) {sb : Nat}
    {entry : LiveRangeListEntry} (spill : (s.spillsets spillset).spillBundle = some sb)
    (last : (s.bundles bundle).ranges.getLast? = some entry)
    (free : (s.ranges entry.index).uses = [])
    (popped : s' = ((s.updateBundle sb fun b => { b with ranges := b.ranges ++ [entry] }).updateBundle
      bundle fun b => { b with ranges := b.ranges.dropLast }).updateRange entry.index
        fun r => { r with bundle := sb }) :
    SplitInv origin s' bundle newBundle spillset point (added ++ [entry]) := by
  obtain ⟨init, split⟩ := List.getLast?_eq_some_iff.mp last
  obtain ⟨sbBundle, sbNew, -⟩ := inv.spillApart sb spill
  have keptList : s'.bundles bundle = { s.bundles bundle with ranges := init } := by
    simp [popped, split, Ne.symm sbBundle]
  have movedList : s'.bundles newBundle = s.bundles newBundle := by
    simp [popped, Ne.symm inv.apart.1, Ne.symm sbNew]
  have spillList : (s'.bundles sb).ranges = (s.bundles sb).ranges ++ [entry] := by
    simp [popped, sbBundle]
  have spillsets' : s'.spillsets = s.spillsets := by simp [popped]
  have entryIn : entry ∈ (s.bundles bundle).ranges := by simp [split]
  have initSub : init.Sublist (s.bundles bundle).ranges := by
    rw [split]; exact List.sublist_append_left _ _
  have others : ∀ x ∈ init ++ ((s.bundles newBundle).ranges ++ added), x.index ≠ entry.index :=
    index_ne_of_nodup (by simpa [splitPieces, split] using inv.distinct)
  have perm : (splitPieces s' bundle newBundle (added ++ [entry])).Perm
      (splitPieces s bundle newBundle added) := by
    rw [splitPieces, splitPieces, keptList, movedList, split]
    exact List.perm_iff_count.mpr fun a => by simp only [List.count_append]; omega
  exact {
    kept := by
      rw [keptList]; exact (inv.kept.sublist initSub).congr fun e _ => by simp [popped]
    moved := by rw [movedList]; exact inv.moved.congr fun e _ => by simp [popped]
    keptBefore := by rw [keptList]; exact fun e h => inv.keptBefore e (initSub.subset h)
    movedAfter := by rw [movedList]; exact inv.movedAfter
    addedFree := by
      intro e member
      simp only [popped, updateRange_owner]
      rcases List.mem_append.mp member with old | new
      · exact inv.addedFree e old
      · rw [List.mem_singleton.mp new]
        exact ⟨inv.kept.arena entry entryIn, KeysSorted.nonempty inv.kept.sorted entry entryIn, free⟩
    points := (perm.flatMap_right _).trans inv.points
    uses := by
      have same : entryUses s' (splitPieces s' bundle newBundle (added ++ [entry])) =
          entryUses s (splitPieces s' bundle newBundle (added ++ [entry])) :=
        entryUses_congr fun e _ => by simp [popped]
      exact same ▸ (perm.flatMap_right _).trans inv.uses
    distinct := (perm.map _).nodup_iff.mpr inv.distinct
    inArena := fun e member => by simpa [popped] using inv.inArena e (perm.subset member)
    vregs := fun e member => by
      simp only [popped, updateRange_owner]
      rw [keptList, movedList] at member
      exact inv.vregs e (by
        rcases List.mem_append.mp member with h | h
        exacts [List.mem_append_left _ (initSub.subset h), List.mem_append_right _ h])
    spillsets := by rw [keptList, movedList]; exact inv.spillsets
    spilled := by
      rw [spillRanges_of_some (spillsets' ▸ spill), spillList, ← spillRanges_of_some spill,
        inv.spilled, List.append_assoc]
    apart := by simpa [popped] using inv.apart
    spillApart := by simpa [popped] using inv.spillApart
    keptOwner := fun e member => by
      rw [keptList] at member
      simpa [popped, others e (List.mem_append_left _ member)] using
        inv.keptOwner e (initSub.subset member)
    movedOwner := fun e member => by
      rw [movedList] at member
      simpa [popped, others e (by simp [member])] using inv.movedOwner e member
    addedOwner := fun e member x found => by
      rw [spillsets', spill, Option.some.injEq] at found
      subst found
      rcases List.mem_append.mp member with old | new
      · simpa [popped, others e (by simp [old])] using inv.addedOwner e old _ spill
      · simp [popped, List.mem_singleton.mp new]
    queue := by rw [popped]; exact inv.queue
    pregs := by rw [popped]; exact inv.pregs }

theorem cutLast (inv : SplitInv origin s bundle newBundle spillset point added) {sb : Nat}
    {entry : LiveRangeListEntry} {u : Use} (spill : (s.spillsets spillset).spillBundle = some sb)
    (last : (s.bundles bundle).ranges.getLast? = some entry)
    (lastUse : (s.ranges entry.index).uses.getLast? = some u)
    (cuts : ProgPoint.before (ProgPoint.inst u.pos + 1) < entry.range.to) :
    ∃ s', cutTail s bundle sb (ProgPoint.before (ProgPoint.inst u.pos + 1)) entry.range.to
        (s.ranges entry.index).vreg = .ok s' ∧
      SplitInv origin s' bundle newBundle spillset point
        (added ++ [⟨⟨ProgPoint.before (ProgPoint.inst u.pos + 1), entry.range.to⟩, s.numRanges⟩]) ∧
      TailTrimmed s' bundle := by
  set q := ProgPoint.before (ProgPoint.inst u.pos + 1) with q_eq
  obtain ⟨init, split⟩ := List.getLast?_eq_some_iff.mp last
  obtain ⟨sbBundle, sbNew, -⟩ := inv.spillApart sb spill
  have entryIn : entry ∈ (s.bundles bundle).ranges := by simp [split]
  have entryPiece : entry ∈ splitPieces s bundle newBundle added := by simp [splitPieces, entryIn]
  obtain ⟨v, vreg⟩ := Option.isSome_iff_exists.mp (inv.vregs entry (List.mem_append_left _ entryIn))
  obtain ⟨s', cut, bundles', ranges', numRanges', numBundles', spillsets', -, pregs', queue', -⟩ :=
    cutTail_spec q v split sbBundle (inv.inArena entry entryPiece)
  rw [vreg]
  have uIn : u ∈ (s.ranges entry.index).uses := List.mem_of_getLast?_eq_some lastUse
  have arena := inv.kept.arena entry entryIn
  have usesIn := inv.kept.usesInside entry entryIn
  have uInside := usesIn.inside u uIn
  rw [arena] at uInside
  have usesBelow : ∀ w ∈ (s.ranges entry.index).uses, w.pos < q := fun w member => by
    have := le_getLast?_pos usesIn.sorted lastUse w member
    simp only [q_eq, ProgPoint.before_eq, ProgPoint.inst_eq]; omega
  have startsBefore : entry.range.from < q := by
    simp only [q_eq, ProgPoint.before_eq, ProgPoint.inst_eq]; omega
  have others : ∀ x ∈ init ++ ((s.bundles newBundle).ranges ++ added), x.index ≠ entry.index :=
    index_ne_of_nodup (by simpa [splitPieces, split] using inv.distinct)
  have rangeOther : ∀ x ∈ init ++ ((s.bundles newBundle).ranges ++ added),
      s'.ranges x.index = s.ranges x.index := fun x member => by
    have := inv.inArena x (by
      simp only [splitPieces, split, List.mem_append, List.mem_cons] at member ⊢
      rcases member with old | new | added <;> simp [*])
    rw [ranges']
    simp [Function.update_apply, others x member, Nat.ne_of_lt this]
  have entryRec : s'.ranges entry.index =
      { s.ranges entry.index with range := { (s.ranges entry.index).range with «to» := q } } := by
    rw [ranges']
    simp [Function.update_apply, Nat.ne_of_lt (inv.inArena entry entryPiece)]
  have newRec : s'.ranges s.numRanges = ⟨⟨q, entry.range.to⟩, none, sb, [], 0, false⟩ := by
    rw [ranges']; simp
  have keptList : s'.bundles bundle = { s.bundles bundle with
      ranges := init ++ [{ entry with range := { entry.range with «to» := q } }] } := by
    rw [bundles']; simp [Function.update_apply, Ne.symm sbBundle]
  have movedList : s'.bundles newBundle = s.bundles newBundle := by
    rw [bundles']; simp [Function.update_apply, Ne.symm sbNew, Ne.symm inv.apart.1]
  have spillList : (s'.bundles sb).ranges =
      (s.bundles sb).ranges ++ [⟨⟨q, entry.range.to⟩, s.numRanges⟩] := by
    rw [bundles']; simp
  have sortedParts := KeysSorted.append_iff.mp (split ▸ inv.kept.sorted)
  refine ⟨s', cut, {
    kept := ?kept, moved := ?moved, keptBefore := ?keptBefore, movedAfter := ?movedAfter,
    addedFree := ?addedFree, points := ?points, uses := ?uses, distinct := ?distinct,
    inArena := ?inArena, vregs := ?vregs, spillsets := ?spillsets, spilled := ?spilled,
    apart := ?apart, spillApart := ?spillApart, keptOwner := ?keptOwner,
    movedOwner := ?movedOwner, addedOwner := ?addedOwner, queue := queue'.trans inv.queue,
    pregs := pregs'.trans inv.pregs }, ?trimmed⟩
  case kept =>
    rw [keptList]
    refine ⟨KeysSorted.append_iff.mpr ⟨sortedParts.1, (KeysSorted.cons_iff _).mpr
      ⟨startsBefore, by simp, KeysSorted.nil⟩, fun a member b bIn => ?_⟩,
      fun e member => ?_, fun e member => ?_⟩
    · rw [List.mem_singleton.mp bIn]
      exact sortedParts.2.2 a member entry (List.mem_singleton_self _)
    · rcases List.mem_append.mp member with old | new
      · rw [rangeOther e (by simp [old])]; exact inv.kept.arena e (by simp [split, old])
      · rw [List.mem_singleton.mp new]
        show (s'.ranges entry.index).range = _
        simp [entryRec, arena]
    · rcases List.mem_append.mp member with old | new
      · rw [rangeOther e (by simp [old])]; exact inv.kept.usesInside e (by simp [split, old])
      · rw [List.mem_singleton.mp new]
        show UsesInside (s'.ranges entry.index)
        rw [entryRec]
        exact ⟨usesIn.sorted, fun w member => ⟨(usesIn.inside w member).1, usesBelow w member⟩⟩
  case moved =>
    rw [movedList]
    exact inv.moved.congr fun e member => by rw [rangeOther e (by simp [member])]; exact ⟨rfl, rfl⟩
  case keptBefore =>
    rw [keptList]
    intro e member
    rcases List.mem_append.mp member with old | new
    · exact inv.keptBefore e (by simp [split, old])
    · rw [List.mem_singleton.mp new]
      have := inv.keptBefore entry entryIn
      show q ≤ point; omega
  case movedAfter => rw [movedList]; exact inv.movedAfter
  case addedFree =>
    intro e member
    rcases List.mem_append.mp member with old | new
    · rw [rangeOther e (by simp [old])]; exact inv.addedFree e old
    · rw [List.mem_singleton.mp new, newRec]; exact ⟨rfl, cuts, rfl⟩
  case points =>
    refine List.Perm.trans ?_ inv.points
    rw [splitPieces, splitPieces, keptList, movedList, split]
    have cut := range'_cut (le_of_lt startsBefore) (le_of_lt cuts)
    simp only [entryPoints_append, entryPoints_cons, entryPoints_nil, CodeRange.len, List.append_nil]
    rw [← cut]
    exact List.perm_iff_count.mpr fun a => by simp only [List.count_append]; omega
  case uses =>
    refine List.Perm.trans ?_ inv.uses
    rw [splitPieces, splitPieces, keptList, movedList, split]
    have sameInit : entryUses s' init = entryUses s init :=
      entryUses_congr fun e member => by rw [rangeOther e (by simp [member])]
    have sameMoved : entryUses s' (s.bundles newBundle).ranges = entryUses s (s.bundles newBundle).ranges :=
      entryUses_congr fun e member => by rw [rangeOther e (by simp [member])]
    have sameAdded : entryUses s' added = entryUses s added :=
      entryUses_congr fun e member => by rw [rangeOther e (by simp [member])]
    simp only [entryUses_append, entryUses_cons, entryUses_nil, sameInit, sameMoved, sameAdded,
      entryRec, newRec, List.append_nil]
    exact List.Perm.refl _
  case distinct =>
    have perm : ((splitPieces s' bundle newBundle
        (added ++ [⟨⟨q, entry.range.to⟩, s.numRanges⟩])).map (·.index)).Perm
        (s.numRanges :: (splitPieces s bundle newBundle added).map (·.index)) := by
      rw [splitPieces, splitPieces, keptList, movedList, split]
      exact List.perm_iff_count.mpr fun a => by
        simp only [List.map_append, List.map_cons, List.map_nil, List.count_append, List.count_cons,
          List.count_nil]
        omega
    refine perm.nodup_iff.mpr (List.nodup_cons.mpr ⟨fun member => ?_, inv.distinct⟩)
    obtain ⟨x, xIn, same⟩ := List.mem_map.mp member
    exact absurd same (Nat.ne_of_lt (inv.inArena x xIn))
  case inArena =>
    intro e member
    rw [numRanges']
    rw [splitPieces, keptList, movedList] at member
    simp only [List.mem_append, List.mem_singleton] at member
    rcases member with ((old | rfl) | moved) | old | rfl
    · exact Nat.lt_succ_of_lt (inv.inArena e (by simp [splitPieces, split, old]))
    · exact Nat.lt_succ_of_lt (inv.inArena entry entryPiece)
    · exact Nat.lt_succ_of_lt (inv.inArena e (by simp [splitPieces, moved]))
    · exact Nat.lt_succ_of_lt (inv.inArena e (by simp [splitPieces, old]))
    · exact Nat.lt_succ_self _
  case vregs =>
    intro e member
    rw [keptList, movedList] at member
    simp only [List.mem_append, List.mem_singleton] at member
    rcases member with (old | rfl) | moved
    · rw [rangeOther e (by simp [old])]; exact inv.vregs e (by simp [split, old])
    · show (s'.ranges entry.index).vreg.isSome
      simp [entryRec, vreg]
    · rw [rangeOther e (by simp [moved])]; exact inv.vregs e (by simp [moved])
  case spillsets => rw [keptList, movedList]; exact inv.spillsets
  case spilled =>
    rw [spillRanges_of_some (spillsets' ▸ spill), spillList, ← spillRanges_of_some spill,
      inv.spilled, List.append_assoc]
  case apart => rw [numBundles']; exact inv.apart
  case spillApart => rw [spillsets', numBundles']; exact inv.spillApart
  case keptOwner =>
    intro e member
    rw [keptList] at member
    rcases List.mem_append.mp member with old | new
    · rw [rangeOther e (by simp [old])]; exact inv.keptOwner e (by simp [split, old])
    · rw [List.mem_singleton.mp new]
      show (s'.ranges entry.index).bundle = _
      rw [entryRec]; exact inv.keptOwner entry entryIn
  case movedOwner =>
    rw [movedList]
    intro e member
    rw [rangeOther e (by simp [member])]; exact inv.movedOwner e member
  case addedOwner =>
    intro e member x found
    rw [spillsets', spill, Option.some.injEq] at found
    subst found
    rcases List.mem_append.mp member with old | new
    · rw [rangeOther e (by simp [old])]; exact inv.addedOwner e old _ spill
    · rw [List.mem_singleton.mp new, newRec]
  case trimmed =>
    intro l found
    rw [keptList] at found
    simp only [List.getLast?_concat, Option.mem_def, Option.some.injEq] at found
    subst found
    refine ⟨u, ?_, le_refl _⟩
    show u ∈ (s'.ranges entry.index).uses.getLast?
    rw [entryRec]; exact lastUse

theorem popFirst (inv : SplitInv origin s bundle newBundle spillset point added) {sb : Nat}
    {entry : LiveRangeListEntry} (spill : (s.spillsets spillset).spillBundle = some sb)
    (first : (s.bundles newBundle).ranges.head? = some entry)
    (free : (s.ranges entry.index).uses = [])
    (popped : s' = ((s.updateBundle sb fun b => { b with ranges := b.ranges ++ [entry] }).updateBundle
      newBundle fun b => { b with ranges := b.ranges.drop 1 }).updateRange entry.index
        fun r => { r with bundle := sb }) :
    SplitInv origin s' bundle newBundle spillset point (added ++ [entry]) := by
  obtain ⟨rest, split⟩ := List.head?_eq_some_iff.mp first
  obtain ⟨sbBundle, sbNew, -⟩ := inv.spillApart sb spill
  have keptList : s'.bundles bundle = s.bundles bundle := by
    simp [popped, inv.apart.1, Ne.symm sbBundle]
  have movedList : s'.bundles newBundle = { s.bundles newBundle with ranges := rest } := by
    simp [popped, split, Ne.symm sbNew]
  have spillList : (s'.bundles sb).ranges = (s.bundles sb).ranges ++ [entry] := by
    simp [popped, sbNew]
  have spillsets' : s'.spillsets = s.spillsets := by simp [popped]
  have entryIn : entry ∈ (s.bundles newBundle).ranges := by simp [split]
  have restSub : rest.Sublist (s.bundles newBundle).ranges := by
    rw [split]; exact List.sublist_cons_self _ _
  have others : ∀ x ∈ (s.bundles bundle).ranges ++ (rest ++ added), x.index ≠ entry.index :=
    index_ne_of_nodup (by simpa [splitPieces, split] using inv.distinct)
  have perm : (splitPieces s' bundle newBundle (added ++ [entry])).Perm
      (splitPieces s bundle newBundle added) := by
    rw [splitPieces, splitPieces, keptList, movedList, split]
    exact List.perm_iff_count.mpr fun a => by
      simp only [List.count_append, List.count_cons, List.count_nil]; omega
  exact {
    kept := by rw [keptList]; exact inv.kept.congr fun e _ => by simp [popped]
    moved := by
      rw [movedList]; exact (inv.moved.sublist restSub).congr fun e _ => by simp [popped]
    keptBefore := by rw [keptList]; exact inv.keptBefore
    movedAfter := by rw [movedList]; exact fun e h => inv.movedAfter e (restSub.subset h)
    addedFree := by
      intro e member
      simp only [popped, updateRange_owner]
      rcases List.mem_append.mp member with old | new
      · exact inv.addedFree e old
      · rw [List.mem_singleton.mp new]
        exact ⟨inv.moved.arena entry entryIn, KeysSorted.nonempty inv.moved.sorted entry entryIn, free⟩
    points := (perm.flatMap_right _).trans inv.points
    uses := by
      have same : entryUses s' (splitPieces s' bundle newBundle (added ++ [entry])) =
          entryUses s (splitPieces s' bundle newBundle (added ++ [entry])) :=
        entryUses_congr fun e _ => by simp [popped]
      exact same ▸ (perm.flatMap_right _).trans inv.uses
    distinct := (perm.map _).nodup_iff.mpr inv.distinct
    inArena := fun e member => by simpa [popped] using inv.inArena e (perm.subset member)
    vregs := fun e member => by
      simp only [popped, updateRange_owner]
      rw [keptList, movedList] at member
      exact inv.vregs e (by
        rcases List.mem_append.mp member with h | h
        exacts [List.mem_append_left _ h, List.mem_append_right _ (restSub.subset h)])
    spillsets := by rw [keptList, movedList]; exact inv.spillsets
    spilled := by
      rw [spillRanges_of_some (spillsets' ▸ spill), spillList, ← spillRanges_of_some spill,
        inv.spilled, List.append_assoc]
    apart := by simpa [popped] using inv.apart
    spillApart := by simpa [popped] using inv.spillApart
    keptOwner := fun e member => by
      rw [keptList] at member
      simpa [popped, others e (List.mem_append_left _ member)] using inv.keptOwner e member
    movedOwner := fun e member => by
      rw [movedList] at member
      simpa [popped, others e (by simp [member])] using inv.movedOwner e (restSub.subset member)
    addedOwner := fun e member x found => by
      rw [spillsets', spill, Option.some.injEq] at found
      subst found
      rcases List.mem_append.mp member with old | new
      · simpa [popped, others e (by simp [old])] using inv.addedOwner e old _ spill
      · simp [popped, List.mem_singleton.mp new]
    queue := by rw [popped]; exact inv.queue
    pregs := by rw [popped]; exact inv.pregs }

theorem cutFirst (inv : SplitInv origin s bundle newBundle spillset point added) {sb : Nat}
    {entry : LiveRangeListEntry} {u : Use} (spill : (s.spillsets spillset).spillBundle = some sb)
    (first : (s.bundles newBundle).ranges.head? = some entry)
    (firstUse : (s.ranges entry.index).uses.head? = some u)
    (cuts : entry.range.from < ProgPoint.before (ProgPoint.inst u.pos)) :
    ∃ s', cutHead s newBundle sb (ProgPoint.before (ProgPoint.inst u.pos)) entry.range.from
        (s.ranges entry.index).vreg = .ok s' ∧
      SplitInv origin s' bundle newBundle spillset point
        (added ++ [⟨⟨entry.range.from, ProgPoint.before (ProgPoint.inst u.pos)⟩, s.numRanges⟩]) ∧
      HeadTrimmed s' newBundle ∧ (TailTrimmed s bundle → TailTrimmed s' bundle) := by
  set q := ProgPoint.before (ProgPoint.inst u.pos) with q_eq
  obtain ⟨rest, split⟩ := List.head?_eq_some_iff.mp first
  obtain ⟨sbBundle, sbNew, -⟩ := inv.spillApart sb spill
  have entryIn : entry ∈ (s.bundles newBundle).ranges := by simp [split]
  have entryPiece : entry ∈ splitPieces s bundle newBundle added := by simp [splitPieces, entryIn]
  obtain ⟨v, vreg⟩ := Option.isSome_iff_exists.mp (inv.vregs entry (List.mem_append_right _ entryIn))
  obtain ⟨s', cut, bundles', ranges', numRanges', numBundles', spillsets', -, pregs', queue', -⟩ :=
    cutHead_spec q v split sbNew (inv.inArena entry entryPiece)
  rw [vreg]
  have uIn : u ∈ (s.ranges entry.index).uses := List.mem_of_mem_head? firstUse
  have arena := inv.moved.arena entry entryIn
  have usesIn := inv.moved.usesInside entry entryIn
  have uInside := usesIn.inside u uIn
  rw [arena] at uInside
  have usesAbove : ∀ w ∈ (s.ranges entry.index).uses, q ≤ w.pos := fun w member => by
    have := head?_pos_le usesIn.sorted firstUse w member
    simp only [q_eq, ProgPoint.before_eq, ProgPoint.inst_eq]; omega
  have endsAfter : q < entry.range.to := by
    simp only [q_eq, ProgPoint.before_eq, ProgPoint.inst_eq]; omega
  have others : ∀ x ∈ (s.bundles bundle).ranges ++ (rest ++ added), x.index ≠ entry.index :=
    index_ne_of_nodup (by simpa [splitPieces, split] using inv.distinct)
  have rangeOther : ∀ x ∈ (s.bundles bundle).ranges ++ (rest ++ added),
      s'.ranges x.index = s.ranges x.index := fun x member => by
    have := inv.inArena x (by
      simp only [splitPieces, split, List.mem_append, List.mem_cons] at member ⊢
      rcases member with old | new | added <;> simp [*])
    rw [ranges']
    simp [Function.update_apply, others x member, Nat.ne_of_lt this]
  have entryRec : s'.ranges entry.index =
      { s.ranges entry.index with range := { (s.ranges entry.index).range with «from» := q } } := by
    rw [ranges']
    simp [Function.update_apply, Nat.ne_of_lt (inv.inArena entry entryPiece)]
  have newRec : s'.ranges s.numRanges = ⟨⟨entry.range.from, q⟩, none, sb, [], 0, false⟩ := by
    rw [ranges']; simp
  have keptList : s'.bundles bundle = s.bundles bundle := by
    rw [bundles']; simp [Function.update_apply, Ne.symm sbBundle, inv.apart.1]
  have movedList : s'.bundles newBundle = { s.bundles newBundle with
      ranges := { entry with range := { entry.range with «from» := q } } :: rest } := by
    rw [bundles']; simp [Function.update_apply, Ne.symm sbNew]
  have spillList : (s'.bundles sb).ranges =
      (s.bundles sb).ranges ++ [⟨⟨entry.range.from, q⟩, s.numRanges⟩] := by
    rw [bundles']; simp
  have sortedParts := (KeysSorted.cons_iff entry).mp (split ▸ inv.moved.sorted)
  refine ⟨s', cut, {
    kept := ?kept, moved := ?moved, keptBefore := ?keptBefore, movedAfter := ?movedAfter,
    addedFree := ?addedFree, points := ?points, uses := ?uses, distinct := ?distinct,
    inArena := ?inArena, vregs := ?vregs, spillsets := ?spillsets, spilled := ?spilled,
    apart := ?apart, spillApart := ?spillApart, keptOwner := ?keptOwner,
    movedOwner := ?movedOwner, addedOwner := ?addedOwner, queue := queue'.trans inv.queue,
    pregs := pregs'.trans inv.pregs }, ?trimmed, ?tail⟩
  case kept =>
    rw [keptList]
    exact inv.kept.congr fun e member => by rw [rangeOther e (by simp [member])]; exact ⟨rfl, rfl⟩
  case moved =>
    rw [movedList]
    refine ⟨(KeysSorted.cons_iff _).mpr ⟨endsAfter, sortedParts.2.1, sortedParts.2.2⟩,
      fun e member => ?_, fun e member => ?_⟩
    · rcases List.mem_cons.mp member with rfl | old
      · show (s'.ranges entry.index).range = _
        simp [entryRec, arena]
      · rw [rangeOther e (by simp [old])]; exact inv.moved.arena e (by simp [split, old])
    · rcases List.mem_cons.mp member with rfl | old
      · show UsesInside (s'.ranges entry.index)
        rw [entryRec]
        exact ⟨usesIn.sorted, fun w member => ⟨usesAbove w member, (usesIn.inside w member).2⟩⟩
      · rw [rangeOther e (by simp [old])]; exact inv.moved.usesInside e (by simp [split, old])
  case keptBefore => rw [keptList]; exact inv.keptBefore
  case movedAfter =>
    rw [movedList]
    intro e member
    rcases List.mem_cons.mp member with rfl | old
    · have := inv.movedAfter entry entryIn
      show point ≤ q; omega
    · exact inv.movedAfter e (by simp [split, old])
  case addedFree =>
    intro e member
    rcases List.mem_append.mp member with old | new
    · rw [rangeOther e (by simp [old])]; exact inv.addedFree e old
    · rw [List.mem_singleton.mp new, newRec]; exact ⟨rfl, cuts, rfl⟩
  case points =>
    refine List.Perm.trans ?_ inv.points
    rw [splitPieces, splitPieces, keptList, movedList, split]
    have cut := range'_cut (le_of_lt cuts) (le_of_lt endsAfter)
    simp only [entryPoints_append, entryPoints_cons, entryPoints_nil, CodeRange.len, List.append_nil]
    rw [← cut]
    exact List.perm_iff_count.mpr fun a => by simp only [List.count_append]; omega
  case uses =>
    refine List.Perm.trans ?_ inv.uses
    rw [splitPieces, splitPieces, keptList, movedList, split]
    have sameKept : entryUses s' (s.bundles bundle).ranges = entryUses s (s.bundles bundle).ranges :=
      entryUses_congr fun e member => by rw [rangeOther e (by simp [member])]
    have sameRest : entryUses s' rest = entryUses s rest :=
      entryUses_congr fun e member => by rw [rangeOther e (by simp [member])]
    have sameAdded : entryUses s' added = entryUses s added :=
      entryUses_congr fun e member => by rw [rangeOther e (by simp [member])]
    simp only [entryUses_append, entryUses_cons, entryUses_nil, sameKept, sameRest, sameAdded,
      entryRec, newRec, List.append_nil]
    exact List.Perm.refl _
  case distinct =>
    have perm : ((splitPieces s' bundle newBundle
        (added ++ [⟨⟨entry.range.from, q⟩, s.numRanges⟩])).map (·.index)).Perm
        (s.numRanges :: (splitPieces s bundle newBundle added).map (·.index)) := by
      rw [splitPieces, splitPieces, keptList, movedList, split]
      exact List.perm_iff_count.mpr fun a => by
        simp only [List.map_append, List.map_cons, List.map_nil, List.count_append, List.count_cons,
          List.count_nil]
        omega
    refine perm.nodup_iff.mpr (List.nodup_cons.mpr ⟨fun member => ?_, inv.distinct⟩)
    obtain ⟨x, xIn, same⟩ := List.mem_map.mp member
    exact absurd same (Nat.ne_of_lt (inv.inArena x xIn))
  case inArena =>
    intro e member
    rw [numRanges']
    rw [splitPieces, keptList, movedList] at member
    simp only [List.mem_append, List.mem_cons, List.not_mem_nil, or_false] at member
    rcases member with (kept | rfl | old) | old | rfl
    · exact Nat.lt_succ_of_lt (inv.inArena e (by simp [splitPieces, kept]))
    · exact Nat.lt_succ_of_lt (inv.inArena entry entryPiece)
    · exact Nat.lt_succ_of_lt (inv.inArena e (by simp [splitPieces, split, old]))
    · exact Nat.lt_succ_of_lt (inv.inArena e (by simp [splitPieces, old]))
    · exact Nat.lt_succ_self _
  case vregs =>
    intro e member
    rw [keptList, movedList] at member
    simp only [List.mem_append, List.mem_cons] at member
    rcases member with kept | rfl | old
    · rw [rangeOther e (by simp [kept])]; exact inv.vregs e (by simp [kept])
    · show (s'.ranges entry.index).vreg.isSome
      simp [entryRec, vreg]
    · rw [rangeOther e (by simp [old])]; exact inv.vregs e (by simp [split, old])
  case spillsets => rw [keptList, movedList]; exact inv.spillsets
  case spilled =>
    rw [spillRanges_of_some (spillsets' ▸ spill), spillList, ← spillRanges_of_some spill,
      inv.spilled, List.append_assoc]
  case apart => rw [numBundles']; exact inv.apart
  case spillApart => rw [spillsets', numBundles']; exact inv.spillApart
  case keptOwner =>
    rw [keptList]
    intro e member
    rw [rangeOther e (by simp [member])]; exact inv.keptOwner e member
  case movedOwner =>
    rw [movedList]
    intro e member
    rcases List.mem_cons.mp member with rfl | old
    · show (s'.ranges entry.index).bundle = _
      rw [entryRec]; exact inv.movedOwner entry entryIn
    · rw [rangeOther e (by simp [old])]; exact inv.movedOwner e (by simp [split, old])
  case addedOwner =>
    intro e member x found
    rw [spillsets', spill, Option.some.injEq] at found
    subst found
    rcases List.mem_append.mp member with old | new
    · rw [rangeOther e (by simp [old])]; exact inv.addedOwner e old _ spill
    · rw [List.mem_singleton.mp new, newRec]
  case trimmed =>
    intro l found
    rw [movedList] at found
    simp only [List.head?_cons, Option.mem_def, Option.some.injEq] at found
    subst found
    refine .inr ⟨u, ?_, le_refl _⟩
    show u ∈ (s'.ranges entry.index).uses.head?
    rw [entryRec]; exact firstUse
  case tail =>
    intro trimmed last found
    rw [keptList] at found
    rw [rangeOther last (List.mem_append_left _ (List.mem_of_mem_getLast? found))]
    exact trimmed last found

end SplitInv

theorem TailTrimmed.congr {s s' : Env} {bundle : Nat} (trimmed : TailTrimmed s bundle)
    (list : (s'.bundles bundle).ranges = (s.bundles bundle).ranges)
    (uses : ∀ e ∈ (s.bundles bundle).ranges, (s'.ranges e.index).uses = (s.ranges e.index).uses) :
    TailTrimmed s' bundle := by
  intro last found
  rw [list] at found
  rw [uses last (List.mem_of_mem_getLast? found)]
  exact trimmed last found

theorem HeadTrimmed.congr {s s' : Env} {bundle : Nat} (trimmed : HeadTrimmed s bundle)
    (list : (s'.bundles bundle).ranges = (s.bundles bundle).ranges)
    (same : ∀ e ∈ (s.bundles bundle).ranges, (s'.ranges e.index).uses = (s.ranges e.index).uses ∧
      (s'.ranges e.index).startsAtDef = (s.ranges e.index).startsAtDef) :
    HeadTrimmed s' bundle := by
  intro first found
  rw [list] at found
  rw [(same first (List.mem_of_mem_head? found)).1, (same first (List.mem_of_mem_head? found)).2]
  exact trimmed first found

section Loops

variable {origin : Env} {bundle newBundle spillset point : Nat}

/-- The tail-trimming loop, given a round of fuel more than the bundle has ranges, keeps the
invariant and leaves the bundle trimmed at its tail. -/
theorem trimTail_spec : ∀ (fuel : Nat) (s : Env) (added : List LiveRangeListEntry),
    SplitInv origin s bundle newBundle spillset point added →
    (s.bundles bundle).ranges.length < fuel →
    ∃ s' more, trimTail s bundle fuel = .ok s' ∧
      SplitInv origin s' bundle newBundle spillset point (added ++ more) ∧ TailTrimmed s' bundle
  | 0, _, _, _, enough => absurd enough (Nat.not_lt_zero _)
  | fuel + 1, s, added, inv, enough => by
    cases last : (s.bundles bundle).ranges.getLast? with
    | none => exact ⟨s, [], by simp [trimTail, last], by simpa using inv, by simp [TailTrimmed, last]⟩
    | some entry =>
      have sameList : ∀ {sb : Nat} {s₁ : Env}, (∀ y, y ≠ sb → s₁.bundles y = s.bundles y) →
          (s₁.spillsets spillset).spillBundle = some sb →
          SplitInv origin s₁ bundle newBundle spillset point added →
          s₁.bundles bundle = s.bundles bundle := fun others spill inv₁ =>
        others _ (Ne.symm (inv₁.spillApart _ spill).1)
      cases lastUse : (s.ranges entry.index).uses.getLast? with
      | none =>
        obtain ⟨sb, s₁, found, spill, inv₁, ranges₁, -, -, others₁⟩ := inv.getOrCreate (.inl rfl)
        have list₁ := sameList others₁ spill inv₁
        obtain ⟨s', more, run, inv', trimmed⟩ := trimTail_spec fuel _ _
          (inv₁.popLast spill (by rw [list₁]; exact last)
            (by rw [ranges₁]; simpa using lastUse) rfl)
          (by
            have := List.length_pos_of_mem (List.mem_of_getLast?_eq_some last)
            simp [list₁, Ne.symm (inv₁.spillApart sb spill).1]; omega)
        refine ⟨s', entry :: more, ?_, by simpa using inv', trimmed⟩
        simp only [trimTail, last, lastUse, found]
        exact run
      | some u =>
        by_cases cuts : ProgPoint.before (ProgPoint.inst u.pos + 1) < entry.range.to
        · obtain ⟨sb, s₁, found, spill, inv₁, ranges₁, -, -, others₁⟩ := inv.getOrCreate (.inl rfl)
          have list₁ := sameList others₁ spill inv₁
          obtain ⟨s', cut, inv', trimmed⟩ := inv₁.cutLast spill (by rw [list₁]; exact last)
            (by rw [ranges₁]; exact lastUse) cuts
          refine ⟨s', _, ?_, inv', trimmed⟩
          simp only [trimTail, last, lastUse, if_pos cuts, found]
          rw [ranges₁] at cut
          exact cut
        · refine ⟨s, [], by simp only [trimTail, last, lastUse, if_neg cuts], by simpa using inv, ?_⟩
          intro l found
          rw [last, Option.mem_def, Option.some.injEq] at found
          subst found
          exact ⟨u, lastUse, by omega⟩

/-- The head-trimming loop, given a round of fuel more than the new bundle has ranges, keeps the
invariant, leaves the new bundle trimmed at its head and the bundle's tail as it was. -/
theorem trimHead_spec : ∀ (fuel : Nat) (s : Env) (added : List LiveRangeListEntry),
    SplitInv origin s bundle newBundle spillset point added →
    (s.bundles newBundle).ranges.length < fuel →
    ∃ s' more, trimHead s newBundle fuel = .ok s' ∧
      SplitInv origin s' bundle newBundle spillset point (added ++ more) ∧
      HeadTrimmed s' newBundle ∧ (TailTrimmed s bundle → TailTrimmed s' bundle)
  | 0, _, _, _, enough => absurd enough (Nat.not_lt_zero _)
  | fuel + 1, s, added, inv, enough => by
    cases first : (s.bundles newBundle).ranges.head? with
    | none =>
      exact ⟨s, [], by simp [trimHead, first], by simpa using inv, by simp [HeadTrimmed, first], id⟩
    | some entry =>
      by_cases atDef : (s.ranges entry.index).startsAtDef = true
      · refine ⟨s, [], by simp [trimHead, first, atDef], by simpa using inv, ?_, id⟩
        intro l found
        rw [first, Option.mem_def, Option.some.injEq] at found
        subst found
        exact .inl atDef
      have sameList : ∀ {sb : Nat} {s₁ : Env}, (∀ y, y ≠ sb → s₁.bundles y = s.bundles y) →
          (s₁.spillsets spillset).spillBundle = some sb →
          SplitInv origin s₁ bundle newBundle spillset point added →
          s₁.bundles newBundle = s.bundles newBundle ∧ s₁.bundles bundle = s.bundles bundle :=
        fun others spill inv₁ =>
          ⟨others _ (Ne.symm (inv₁.spillApart _ spill).2.1),
            others _ (Ne.symm (inv₁.spillApart _ spill).1)⟩
      cases firstUse : (s.ranges entry.index).uses.head? with
      | none =>
        obtain ⟨sb, s₁, found, spill, inv₁, ranges₁, -, -, others₁⟩ := inv.getOrCreate (.inr rfl)
        obtain ⟨list₁, kept₁⟩ := sameList others₁ spill inv₁
        obtain ⟨s', more, run, inv', trimmed, tail⟩ := trimHead_spec fuel _ _
          (inv₁.popFirst spill (by rw [list₁]; exact first)
            (by rw [ranges₁]; simpa using firstUse) rfl)
          (by
            have := List.length_pos_of_mem (List.mem_of_mem_head? first)
            simp [list₁, Ne.symm (inv₁.spillApart sb spill).2.1]; omega)
        refine ⟨s', entry :: more, ?_, by simpa using inv', trimmed, fun trimmedTail => tail ?_⟩
        · simp only [trimHead, first, atDef, firstUse, found]
          exact run
        · refine trimmedTail.congr ?_ fun e _ => by simp [ranges₁]
          simp [kept₁, inv.apart.1, Ne.symm (inv₁.spillApart sb spill).1]
      | some u =>
        by_cases cuts : entry.range.from < ProgPoint.before (ProgPoint.inst u.pos)
        · obtain ⟨sb, s₁, found, spill, inv₁, ranges₁, -, -, others₁⟩ :=
            inv.getOrCreate (.inr rfl)
          obtain ⟨list₁, kept₁⟩ := sameList others₁ spill inv₁
          obtain ⟨s', cut, inv', trimmed, tail⟩ := inv₁.cutFirst spill (by rw [list₁]; exact first)
            (by rw [ranges₁]; exact firstUse) cuts
          refine ⟨s', _, ?_, inv', trimmed, fun trimmedTail => tail ?_⟩
          · simp only [trimHead, first, atDef, firstUse, if_pos cuts, found]
            rw [ranges₁] at cut
            exact cut
          · exact trimmedTail.congr (by rw [kept₁]) fun e _ => by rw [ranges₁]
        · refine ⟨s, [], ?_, by simpa using inv, ?_, id⟩
          · simp only [trimHead, first, firstUse, if_neg cuts]
            simp [atDef]
          intro l found
          rw [first, Option.mem_def, Option.some.injEq] at found
          subst found
          exact .inr ⟨u, firstUse, by omega⟩

end Loops

end IonRegalloc
