import IonRegalloc.Proof.SplitTrim
import IonRegalloc.Proof.Decision

/-! The cut of `split_and_requeue_bundle` establishes `SplitInv`, and the whole split of a
well-formed, non-minimal bundle yields two well-formed halves holding its points and uses. -/

namespace IonRegalloc

theorem foldl_setOwner (owner : Nat) : ∀ (list : List LiveRangeListEntry) (s : Env),
    list.foldl (fun s entry => s.updateRange entry.index fun r => { r with bundle := owner }) s =
      { s with ranges := fun i =>
          if i ∈ list.map (·.index) then { s.ranges i with bundle := owner } else s.ranges i }
  | [], s => by simp
  | e :: rest, s => by
    rw [List.foldl_cons, foldl_setOwner owner rest]
    simp only [Env.updateRange]
    congr 1
    funext i
    by_cases here : i = e.index <;> by_cases later : i ∈ rest.map (·.index) <;>
      simp [here, later, Function.update_apply]

theorem moveToNewBundle_spec (s : Env) (spillset : Nat) (list : List LiveRangeListEntry) :
    (moveToNewBundle s spillset list).1 = s.numBundles ∧
    (moveToNewBundle s spillset list).2 = { s with
      bundles := Function.update s.bundles s.numBundles
        ⟨list, spillset, .none, 0, 0, false, false, false⟩
      numBundles := s.numBundles + 1
      ranges := fun i =>
        if i ∈ list.map (·.index) then { s.ranges i with bundle := s.numBundles } else s.ranges i } := by
  refine ⟨rfl, ?_⟩
  simp only [moveToNewBundle, foldl_setOwner]
  simp only [Env.updateBundle, Env.createBundle]
  congr 1
  funext x
  by_cases here : x = s.numBundles <;> simp [here, Function.update_apply]

/-- What `splitStraddle` does to a range `r` straddling the point: `r` ends at the point with
the uses before it, and a new live range of the same vreg from the point on takes the rest and
joins the vreg's list. -/
theorem splitStraddle_spec {s : Env} {bundle last point : Nat} {r : LiveRangeListEntry}
    {tail : List LiveRangeListEntry} {v : Nat} (straddles : r.range.from < point)
    (inArena : r.index < s.numRanges) (vreg : (s.ranges r.index).vreg = some v)
    (lastIn : last < (s.bundles bundle).ranges.length) :
    ∃ s', splitStraddle s bundle last point (r :: tail) =
        .ok (s', ⟨⟨point, r.range.to⟩, s.numRanges⟩ :: tail) ∧
      s'.bundles = Function.update s.bundles bundle { s.bundles bundle with
        ranges := (s.bundles bundle).ranges.modify
          (fun e => { e with range := { (s.ranges r.index).range with «to» := point } }) last } ∧
      (∀ i, i ≠ r.index → i ≠ s.numRanges → s'.ranges i = s.ranges i) ∧
      (s'.ranges r.index).range = { (s.ranges r.index).range with «to» := point } ∧
      (s'.ranges r.index).uses = (s.ranges r.index).uses.take
        ((s.ranges r.index).uses.findIdx fun u => point ≤ u.pos) ∧
      (s'.ranges r.index).vreg = some v ∧
      (s'.ranges r.index).bundle = (s.ranges r.index).bundle ∧
      (s'.ranges s.numRanges).range = ⟨point, r.range.to⟩ ∧
      (s'.ranges s.numRanges).uses = (s.ranges r.index).uses.drop
        ((s.ranges r.index).uses.findIdx fun u => point ≤ u.pos) ∧
      (s'.ranges s.numRanges).vreg = some v ∧
      s'.numRanges = s.numRanges + 1 ∧ s'.numBundles = s.numBundles ∧ s'.spillsets = s.spillsets ∧
      s'.vregs = Function.update s.vregs v
        { s.vregs v with ranges := (s.vregs v).ranges ++ [⟨⟨point, r.range.to⟩, s.numRanges⟩] } ∧
      s'.pregs = s.pregs ∧ s'.allocationQueue = s.allocationQueue ∧
      s'.spilledBundles = s.spilledBundles := by
  have fresh : r.index ≠ s.numRanges := by omega
  simp only [splitStraddle, if_pos straddles, recomputeRangeProperties]
  rw [if_pos (by simpa using lastIn)]
  split
  · rename_i found; simp [fresh, Ne.symm fresh, vreg] at found
  · rename_i v' found
    have same : v' = v := by simp [fresh, Ne.symm fresh, vreg] at found; exact found.symm
    subst same
    refine ⟨_, congrArg Except.ok (Prod.ext rfl (by simp [fresh, Ne.symm fresh])), ?_, ?_, ?_⟩
    · funext x; simp [Function.update_apply, fresh, Ne.symm fresh]
    · intro i ne₁ ne₂; simp [ne₁, ne₂]
    · refine ⟨?_, ?_, ?_, ?_, ?_, ?_, ?_, ?_, ?_, ?_, ?_, ?_, ?_, ?_⟩ <;>
        try simp [fresh, Ne.symm fresh, vreg]
      funext w; simp [Function.update_apply]

theorem modify_length_append {α : Type} (f : α → α) (a : α) :
    ∀ l : List α, (l ++ [a]).modify f l.length = l ++ [f a]
  | [] => rfl
  | b :: rest => by
    rw [List.cons_append, List.length_cons, List.modify_succ_cons, modify_length_append f a rest]
    rfl

/-- Once the bundle's list and the list `moved` hold exactly the original bundle's points and
uses, on either side of the point, the new bundle taking `moved` starts the split invariant. -/
theorem SplitInv.ofMove {origin s : Env} {bundle spillset point : Nat}
    {moved : List LiveRangeListEntry}
    (kept : ListReady s (s.bundles bundle).ranges) (movedReady : ListReady s moved)
    (keptBefore : ∀ e ∈ (s.bundles bundle).ranges, e.range.to ≤ point)
    (movedAfter : ∀ e ∈ moved, point ≤ e.range.from)
    (points : (entryPoints ((s.bundles bundle).ranges ++ moved)).Perm
      (entryPoints (origin.bundles bundle).ranges))
    (uses : (entryUses s ((s.bundles bundle).ranges ++ moved)).Perm
      (entryUses origin (origin.bundles bundle).ranges))
    (distinct : (((s.bundles bundle).ranges ++ moved).map (·.index)).Nodup)
    (inArena : ∀ e ∈ (s.bundles bundle).ranges ++ moved, e.index < s.numRanges)
    (vregs : ∀ e ∈ (s.bundles bundle).ranges ++ moved, (s.ranges e.index).vreg.isSome)
    (spillsetOf : (s.bundles bundle).spillset = spillset)
    (spilled : spillRanges s spillset = spillRanges origin spillset)
    (bundle_lt : bundle < s.numBundles)
    (spillApart : ∀ sb, (s.spillsets spillset).spillBundle = some sb →
      sb ≠ bundle ∧ sb < s.numBundles)
    (keptOwner : ∀ e ∈ (s.bundles bundle).ranges,
      (s.ranges e.index).bundle = (origin.ranges e.index).bundle)
    (frame : s.allocationQueue = origin.allocationQueue ∧ s.pregs = origin.pregs) :
    SplitInv origin (moveToNewBundle s spillset moved).2 bundle s.numBundles spillset point [] := by
  obtain ⟨-, moveEq⟩ := moveToNewBundle_spec s spillset moved
  generalize (moveToNewBundle s spillset moved).2 = s' at moveEq ⊢
  have apart : bundle ≠ s.numBundles := Nat.ne_of_lt bundle_lt
  have otherBundles : ∀ x, x ≠ s.numBundles → s'.bundles x = s.bundles x := fun x ne => by
    simp [moveEq, Function.update_apply, ne]
  have movedList : s'.bundles s.numBundles = ⟨moved, spillset, .none, 0, 0, false, false, false⟩ := by
    simp [moveEq]
  have shape : ∀ i, (s'.ranges i).range = (s.ranges i).range ∧
      (s'.ranges i).uses = (s.ranges i).uses ∧ (s'.ranges i).vreg = (s.ranges i).vreg := fun i => by
    rw [moveEq]; dsimp only; split <;> simp
  have owner : ∀ i, (s'.ranges i).bundle =
      if i ∈ moved.map (·.index) then s.numBundles else (s.ranges i).bundle := fun i => by
    rw [moveEq]; dsimp only; split <;> simp
  have counts : s'.numRanges = s.numRanges ∧ s'.numBundles = s.numBundles + 1 ∧
      s'.spillsets = s.spillsets := by simp [moveEq]
  have pieces : splitPieces s' bundle s.numBundles [] = (s.bundles bundle).ranges ++ moved := by
    simp [splitPieces, otherBundles bundle apart, movedList]
  have keptApart : ∀ e ∈ (s.bundles bundle).ranges, e.index ∉ moved.map (·.index) := by
    intro e member inMoved
    exact (List.disjoint_of_nodup_append (by simpa using distinct))
      (List.mem_map_of_mem _ member) inMoved
  exact {
    kept := otherBundles bundle apart ▸ kept.congr fun e _ => ⟨(shape _).1, (shape _).2.1⟩
    moved := movedList ▸ movedReady.congr fun e _ => ⟨(shape _).1, (shape _).2.1⟩
    keptBefore := otherBundles bundle apart ▸ keptBefore
    movedAfter := movedList ▸ movedAfter
    addedFree := by simp
    points := pieces ▸ points
    uses := by rw [pieces, entryUses_congr fun e _ => (shape _).2.1]; exact uses
    distinct := pieces ▸ distinct
    inArena := fun e member => counts.1 ▸ inArena e (pieces ▸ member)
    vregs := fun e member => by
      rw [otherBundles bundle apart, movedList] at member
      exact (shape _).2.2 ▸ vregs e member
    spillsets := by rw [otherBundles bundle apart, movedList]; exact ⟨spillsetOf, rfl⟩
    spilled := by
      rw [List.append_nil, ← spilled]
      cases found : (s.spillsets spillset).spillBundle with
      | none => simp [spillRanges, counts.2.2, found]
      | some sb =>
        rw [spillRanges_of_some found, spillRanges_of_some (counts.2.2 ▸ found),
          otherBundles sb (Nat.ne_of_lt (spillApart sb found).2)]
    apart := ⟨apart, counts.2.1 ▸ Nat.lt_succ_of_lt bundle_lt, counts.2.1 ▸ Nat.lt_succ_self _⟩
    spillApart := fun sb found => by
      obtain ⟨ne, lt⟩ := spillApart sb (counts.2.2 ▸ found)
      exact ⟨ne, Nat.ne_of_lt lt, counts.2.1 ▸ Nat.lt_succ_of_lt lt⟩
    keptOwner := fun e member => by
      rw [otherBundles bundle apart] at member
      rw [owner, if_neg (keptApart e member)]; exact keptOwner e member
    movedOwner := fun e member => by
      rw [movedList] at member
      rw [owner, if_pos (List.mem_map_of_mem _ member)]
    addedOwner := by simp
    queue := by rw [moveEq]; exact frame.1
    pregs := by rw [moveEq]; exact frame.2 }

theorem spillRanges_congr {s s' : Env} {spillset : Nat}
    (spillsets : s'.spillsets spillset = s.spillsets spillset)
    (bundles : ∀ sb, (s.spillsets spillset).spillBundle = some sb →
      (s'.bundles sb).ranges = (s.bundles sb).ranges) :
    spillRanges s' spillset = spillRanges s spillset := by
  cases found : (s.spillsets spillset).spillBundle with
  | none => simp [spillRanges, spillsets, found]
  | some sb => rw [spillRanges_of_some found, spillRanges_of_some (spillsets ▸ found), bundles sb found]

/-- No range straddles the point: the bundle keeps the ranges ending by it and the new bundle
takes the rest whole. -/
theorem SplitInv.startBetween {s : Env} {bundle point : Nat} {kept tail : List LiveRangeListEntry}
    {r : LiveRangeListEntry} (ready : SplitReady s bundle)
    (ranges : (s.bundles bundle).ranges = kept ++ r :: tail)
    (keptBefore : ∀ e ∈ kept, e.range.to ≤ point) (startsAfter : point ≤ r.range.from)
    (nonempty : kept ≠ []) :
    ∃ s₁, splitStraddle (s.updateBundle bundle fun b =>
        { b with ranges := b.ranges.take (kept.length - 1 + 1) }) bundle (kept.length - 1) point
        (r :: tail) = .ok (s₁, r :: tail) ∧ s₁.numBundles = s.numBundles ∧
      SplitInv s (moveToNewBundle s₁ (s.bundles bundle).spillset (r :: tail)).2 bundle
        s.numBundles (s.bundles bundle).spillset point [] := by
  have length : kept.length - 1 + 1 = kept.length :=
    Nat.succ_pred_eq_of_pos (List.length_pos.mpr nonempty)
  set sA := s.updateBundle bundle fun b => { b with ranges := b.ranges.take (kept.length - 1 + 1) }
    with sA_eq
  refine ⟨sA, by simp [splitStraddle, not_lt.mpr startsAfter], rfl, ?_⟩
  have keptList : (sA.bundles bundle).ranges = kept := by
    simp [sA_eq, ranges, length, List.take_left]
  have sortedParts := KeysSorted.append_iff.mp (ranges ▸ ready.ready.sorted)
  refine SplitInv.ofMove ?kept ?moved ?keptBefore ?movedAfter ?points ?uses ?distinct ?inArena
    ?vregs ?spillsetOf ?spilled ready.bundle_lt ready.spillApart (fun _ _ => rfl) ⟨rfl, rfl⟩
  case kept =>
    rw [keptList]
    exact (ready.ready.sublist (ranges ▸ List.sublist_append_left _ _)).congr fun _ _ => ⟨rfl, rfl⟩
  case moved =>
    exact (ready.ready.sublist (ranges ▸ List.sublist_append_right _ _)).congr fun _ _ => ⟨rfl, rfl⟩
  case keptBefore => rwa [keptList]
  case movedAfter =>
    intro e member
    rcases List.mem_cons.mp member with rfl | inTail
    · exact startsAfter
    · have := ((KeysSorted.cons_iff r).mp sortedParts.2.1).2.1 e inTail
      have := ((KeysSorted.cons_iff r).mp sortedParts.2.1).1
      simp only [LiveRangeKey.fromRange_from, LiveRangeKey.fromRange_to] at *; omega
  case points => rw [keptList, ranges]
  case uses => rw [keptList, ranges]; rfl
  case distinct => rw [keptList, ← ranges]; exact ready.ready.nodup_index
  case inArena => rw [keptList, ← ranges]; exact ready.inArena
  case vregs => rw [keptList, ← ranges]; exact ready.vregs
  case spillsetOf => simp [sA_eq]
  case spilled =>
    exact spillRanges_congr rfl fun sb found => by
      simp [sA_eq, (ready.spillApart sb found).1]

/-- A range straddles the point: the bundle keeps its part before the point, and the new bundle
takes a new live range of the same vreg for the rest, then the following ranges. -/
theorem SplitInv.startStraddling {s : Env} {bundle point : Nat}
    {kept tail : List LiveRangeListEntry} {r : LiveRangeListEntry} (ready : SplitReady s bundle)
    (ranges : (s.bundles bundle).ranges = kept ++ r :: tail)
    (keptBefore : ∀ e ∈ kept, e.range.to ≤ point) (straddles : r.range.from < point)
    (ends : point < r.range.to) :
    ∃ s₁, splitStraddle (s.updateBundle bundle fun b =>
        { b with ranges := b.ranges.take (kept.length + 1) }) bundle kept.length point
        (r :: tail) = .ok (s₁, ⟨⟨point, r.range.to⟩, s.numRanges⟩ :: tail) ∧
      s₁.numBundles = s.numBundles ∧
      SplitInv s (moveToNewBundle s₁ (s.bundles bundle).spillset
        (⟨⟨point, r.range.to⟩, s.numRanges⟩ :: tail)).2 bundle s.numBundles
        (s.bundles bundle).spillset point [] := by
  set sA := s.updateBundle bundle fun b => { b with ranges := b.ranges.take (kept.length + 1) }
    with sA_eq
  have rIn : r ∈ (s.bundles bundle).ranges := by simp [ranges]
  obtain ⟨v, vreg⟩ := Option.isSome_iff_exists.mp (ready.vregs r rIn)
  have truncated : (sA.bundles bundle).ranges = kept ++ [r] := by
    simp [sA_eq, ranges, List.take_append_eq_append_take]
  obtain ⟨s₁, straddle, bundles₁, others₁, range₁, uses₁, vreg₁, owner₁, newRange, newUses,
      newVreg, numRanges₁, numBundles₁, spillsets₁, -, pregs₁, queue₁, -⟩ :=
    @splitStraddle_spec sA bundle kept.length point r tail v straddles (ready.inArena r rIn) vreg
      (by rw [truncated]; simp)
  refine ⟨s₁, straddle, numBundles₁, ?_⟩
  have sA_same : sA.ranges = s.ranges ∧ sA.numRanges = s.numRanges ∧
      sA.numBundles = s.numBundles ∧ sA.spillsets = s.spillsets := ⟨rfl, rfl, rfl, rfl⟩
  simp only [sA_same] at others₁ range₁ uses₁ owner₁ newUses newVreg numRanges₁ numBundles₁
  simp only [sA_same] at newRange spillsets₁
  have arena := ready.ready.arena r rIn
  have usesIn := ready.ready.usesInside r rIn
  have keptList : (s₁.bundles bundle).ranges =
      kept ++ [{ r with range := { r.range with «to» := point } }] := by
    rw [bundles₁]; simp [truncated, modify_length_append, sA_same.1, arena]
  have otherBundles : ∀ x, x ≠ bundle → s₁.bundles x = s.bundles x := fun x ne => by
    rw [bundles₁]; simp [Function.update_apply, ne, sA_eq]
  rw [← numBundles₁]
  have nodup := ranges ▸ ready.ready.nodup_index
  have rangeOther : ∀ x ∈ kept ++ tail, s₁.ranges x.index = s.ranges x.index := fun x member =>
    others₁ _ (index_ne_of_nodup nodup x member)
      (Nat.ne_of_lt (ready.inArena x
        (ranges ▸ ((List.sublist_cons_self r tail).append_left kept).subset member)))
  have sortedParts := KeysSorted.append_iff.mp (ranges ▸ ready.ready.sorted)
  have restParts := (KeysSorted.cons_iff r).mp sortedParts.2.1
  refine SplitInv.ofMove ?kept ?moved ?keptBefore ?movedAfter ?points ?uses ?distinct ?inArena
    ?vregs ?spillsetOf ?spilled (by rw [numBundles₁]; exact ready.bundle_lt) ?spillApart ?keptOwner
    ⟨queue₁, pregs₁⟩
  case kept =>
    rw [keptList]
    refine ⟨KeysSorted.append_iff.mpr ⟨sortedParts.1, (KeysSorted.cons_iff _).mpr
      ⟨straddles, by simp, KeysSorted.nil⟩, fun a member b bIn => ?_⟩,
      fun e member => ?_, fun e member => ?_⟩
    · rw [List.mem_singleton.mp bIn]
      exact sortedParts.2.2 a member r (List.mem_cons_self _ _)
    · rcases List.mem_append.mp member with old | new
      · rw [rangeOther e (by simp [old])]; exact ready.ready.arena e (by simp [ranges, old])
      · rw [List.mem_singleton.mp new]; simp [range₁, arena]
    · rcases List.mem_append.mp member with old | new
      · rw [rangeOther e (by simp [old])]; exact ready.ready.usesInside e (by simp [ranges, old])
      · rw [List.mem_singleton.mp new]
        refine ⟨uses₁ ▸ usesIn.sorted.sublist (List.take_sublist _ _), fun u member => ?_⟩
        rw [uses₁] at member
        have := (usesIn.inside u ((List.take_sublist _ _).subset member)).1
        rw [range₁]; exact ⟨this, take_findIdx_before point _ u member⟩
  case moved =>
    refine ⟨(KeysSorted.cons_iff _).mpr ⟨ends, restParts.2.1, restParts.2.2⟩,
      fun e member => ?_, fun e member => ?_⟩
    · rcases List.mem_cons.mp member with rfl | inTail
      · exact newRange
      · rw [rangeOther e (by simp [inTail])]; exact ready.ready.arena e (by simp [ranges, inTail])
    · rcases List.mem_cons.mp member with rfl | inTail
      · refine ⟨newUses ▸ usesIn.sorted.sublist (List.drop_sublist _ _), fun u member => ?_⟩
        rw [newUses] at member
        have := (usesIn.inside u ((List.drop_sublist _ _).subset member)).2
        rw [newRange, ← arena]; exact ⟨drop_findIdx_after point _ usesIn.sorted u member, this⟩
      · rw [rangeOther e (by simp [inTail])]
        exact ready.ready.usesInside e (by simp [ranges, inTail])
  case keptBefore =>
    rw [keptList]
    intro e member
    rcases List.mem_append.mp member with old | new
    · exact keptBefore e old
    · rw [List.mem_singleton.mp new]
  case movedAfter =>
    intro e member
    rcases List.mem_cons.mp member with rfl | inTail
    · exact le_rfl
    · have := restParts.2.1 e inTail
      simp only [LiveRangeKey.fromRange_from, LiveRangeKey.fromRange_to] at this; omega
  case points =>
    rw [keptList, ranges]
    have cut := range'_cut (le_of_lt straddles) (le_of_lt ends)
    simp only [entryPoints_append, entryPoints_cons, entryPoints_nil, CodeRange.len, List.append_nil]
    rw [← cut]
    exact List.perm_iff_count.mpr fun a => by simp only [List.count_append]; omega
  case uses =>
    have keptUses : entryUses s₁ kept = entryUses s kept :=
      entryUses_congr fun e member => by rw [rangeOther e (by simp [member])]
    have tailUses : entryUses s₁ tail = entryUses s tail :=
      entryUses_congr fun e member => by rw [rangeOther e (by simp [member])]
    rw [keptList, ranges]
    simp only [entryUses_append, entryUses_cons, entryUses_nil, keptUses, tailUses, uses₁, newUses,
      List.append_nil, List.append_assoc]
    rw [← List.append_assoc (List.take _ _), List.take_append_drop]
  case distinct =>
    rw [keptList]
    have fresh : s.numRanges ∉ (kept ++ r :: tail).map (·.index) := fun inOld => by
      obtain ⟨x, member, same⟩ := List.mem_map.mp inOld
      exact Nat.ne_of_lt (ready.inArena x (ranges ▸ member)) same
    have same : (kept ++ [{ r with range := { r.range with «to» := point } }]).map
        (fun x : LiveRangeListEntry => x.index) ++ tail.map (·.index) =
        (kept ++ r :: tail).map (·.index) := by simp
    rw [List.map_append, List.map_cons, List.nodup_middle, same]
    exact List.nodup_cons.mpr ⟨fresh, nodup⟩
  case inArena =>
    rw [keptList, numRanges₁]
    intro e member
    simp only [List.mem_append, List.mem_cons, List.not_mem_nil, or_false] at member
    rcases member with (old | rfl) | rfl | inTail
    · exact Nat.lt_succ_of_lt (ready.inArena e (by simp [ranges, old]))
    · exact Nat.lt_succ_of_lt (ready.inArena r rIn)
    · exact Nat.lt_succ_self _
    · exact Nat.lt_succ_of_lt (ready.inArena e (by simp [ranges, inTail]))
  case vregs =>
    rw [keptList]
    intro e member
    simp only [List.mem_append, List.mem_cons, List.not_mem_nil, or_false] at member
    rcases member with (old | rfl) | rfl | inTail
    · rw [rangeOther e (by simp [old])]; exact ready.vregs e (by simp [ranges, old])
    · simp [vreg₁]
    · simp [newVreg]
    · rw [rangeOther e (by simp [inTail])]; exact ready.vregs e (by simp [ranges, inTail])
  case spillsetOf => rw [bundles₁]; simp [sA_eq]
  case spilled =>
    exact spillRanges_congr (congrFun spillsets₁ _) fun sb found => by
      rw [otherBundles sb (ready.spillApart sb found).1]
  case spillApart =>
    intro sb found
    rw [spillsets₁] at found
    rw [numBundles₁]; exact ready.spillApart sb found
  case keptOwner =>
    rw [keptList]
    intro e member
    rcases List.mem_append.mp member with old | new
    · rw [rangeOther e (by simp [old])]
    · rw [List.mem_singleton.mp new]; exact owner₁

/-- The scan's indices cut the list where `SplitInv.startStraddling` or `SplitInv.startBetween`
says, so the cut of a well-formed bundle at a point inside it starts the split invariant. -/
theorem SplitInv.start {s : Env} {bundle point : Nat} {first last : LiveRangeListEntry}
    (ready : SplitReady s bundle) (firstEntry : (s.bundles bundle).ranges.head? = some first)
    (lastEntry : (s.bundles bundle).ranges.getLast? = some last)
    (after_start : first.range.from < point) (before_end : point < last.range.to) :
    ∃ s₁ list, splitStraddle (s.updateBundle bundle fun b => { b with
          ranges := b.ranges.take ((splitIndices point (s.bundles bundle).ranges 0 (0, 0)).1 + 1) })
        bundle (splitIndices point (s.bundles bundle).ranges 0 (0, 0)).1 point
        ((s.bundles bundle).ranges.drop (splitIndices point (s.bundles bundle).ranges 0 (0, 0)).2) =
        .ok (s₁, list) ∧ s₁.numBundles = s.numBundles ∧
      SplitInv s (moveToNewBundle s₁ (s.bundles bundle).spillset list).2 bundle s.numBundles
        (s.bundles bundle).spillset point [] := by
  obtain ⟨rest, ranges⟩ := List.head?_eq_some_iff.mp firstEntry
  have lastEq : (first :: rest).getLast (List.cons_ne_nil _ _) = last := by
    rw [ranges, List.getLast?_eq_getLast _ (List.cons_ne_nil _ _)] at lastEntry
    exact Option.some.inj lastEntry
  obtain ⟨r, tail, whole, ends, reach, indices⟩ :=
    splitIndices_eq (ranges ▸ ready.ready.sorted) after_start (lastEq ▸ before_end)
  have keptBefore : ∀ e ∈ keptBy point (first :: rest), e.range.to ≤ point := fun e member => by
    simpa using List.mem_takeWhile_imp member
  rw [ranges, indices]
  generalize keptBy point (first :: rest) = kept at whole reach keptBefore
  rw [whole]
  by_cases straddles : r.range.from < point
  · obtain ⟨s₁, straddle, numBundles₁, inv⟩ :=
      SplitInv.startStraddling ready (ranges.trans whole) keptBefore straddles ends
    simp only [if_pos straddles, List.drop_left]
    exact ⟨s₁, _, straddle, numBundles₁, inv⟩
  · have nonempty : kept ≠ [] := reach.resolve_left straddles
    obtain ⟨s₁, straddle, numBundles₁, inv⟩ :=
      SplitInv.startBetween ready (ranges.trans whole) keptBefore (not_lt.mp straddles) nonempty
    simp only [if_neg straddles, List.drop_left]
    exact ⟨s₁, _, straddle, numBundles₁, inv⟩

theorem requeueIfNonempty_spec (ctx : Ctx) (s : Env) (bundle regHint : Nat) :
    ∃ s' b, requeueIfNonempty ctx s bundle regHint = .ok s' ∧ s' = { s with
        bundles := Function.update s.bundles bundle b
        allocationQueue := s.allocationQueue ++
          if (s.bundles bundle).ranges = [] then [] else [⟨b.prio, bundle, regHint⟩] } ∧
      b.ranges = (s.bundles bundle).ranges ∧ b.spillset = (s.bundles bundle).spillset ∧
      b.allocation = (s.bundles bundle).allocation := by
  unfold requeueIfNonempty recomputeBundleProperties
  cases h : (s.bundles bundle).ranges with
  | nil => exact ⟨_, s.bundles bundle, by simp [h], rfl, h, rfl, rfl⟩
  | cons first rest =>
    let flags := bundleFlags s first ((first :: rest).getLast (List.cons_ne_nil _ _)).range.to
    refine ⟨_, { s.bundles bundle with
      prio := computeBundlePrio s bundle
      spillWeight := bundleWeight ctx flags.1 flags.2.1
        ((first :: rest).map fun e => (s.ranges e.index).usesSpillWeight).sum
        (computeBundlePrio s bundle)
      minimal := flags.1, fixed := flags.2.1, stack := flags.2.2 }, ?_, rfl, h, rfl, rfl⟩
    simp only [List.length_cons, Nat.zero_lt_succ, if_true, Env.enqueue, Env.updateBundle,
      Function.update_same, List.cons_ne_nil, if_false]

/-- What `split_and_requeue_bundle` leaves: `bundle` keeps well-formed ranges ending by the
point, `newBundle` takes well-formed ranges from it on in the same spillset, the ranges `added`
to the spill bundle are nonempty and use-free, the three together hold each of the bundle's points
once and exactly its uses, both halves are trimmed, and each half that kept a range is queued. -/
structure SplitOutcome (s s' : Env) (bundle newBundle point regHint : Nat)
    (added : List LiveRangeListEntry) : Prop where
  keptBefore : ∀ e ∈ (s'.bundles bundle).ranges, e.range.to ≤ point
  movedAfter : ∀ e ∈ (s'.bundles newBundle).ranges, point ≤ e.range.from
  keptReady : ListReady s' (s'.bundles bundle).ranges
  movedReady : ListReady s' (s'.bundles newBundle).ranges
  spilled : spillRanges s' (s.bundles bundle).spillset =
    spillRanges s (s.bundles bundle).spillset ++ added
  addedFree : ∀ e ∈ added, (s'.ranges e.index).range = e.range ∧ e.range.from < e.range.to ∧
    (s'.ranges e.index).uses = []
  points : (entryPoints (splitPieces s' bundle newBundle added)).Perm
    (entryPoints (s.bundles bundle).ranges)
  once : (entryPoints (splitPieces s' bundle newBundle added)).Nodup
  uses : (entryUses s' (splitPieces s' bundle newBundle added)).Perm
    (entryUses s (s.bundles bundle).ranges)
  spillset : (s'.bundles newBundle).spillset = (s.bundles bundle).spillset
  tailTrimmed : TailTrimmed s' bundle
  headTrimmed : HeadTrimmed s' newBundle
  requeued : s'.allocationQueue = s.allocationQueue ++
    ([bundle, newBundle].filter fun x => !(s'.bundles x).ranges.isEmpty).map
      fun x => ⟨(s'.bundles x).prio, x, regHint⟩

theorem SplitInv.outcome {s s₃ s' : Env} {bundle newBundle point regHint : Nat}
    {added : List LiveRangeListEntry}
    (inv : SplitInv s s₃ bundle newBundle (s.bundles bundle).spillset point added)
    (tail : TailTrimmed s₃ bundle) (head : HeadTrimmed s₃ newBundle)
    (ranges : s'.ranges = s₃.ranges)
    (lists : ∀ x, (s'.bundles x).ranges = (s₃.bundles x).ranges ∧
      (s'.bundles x).spillset = (s₃.bundles x).spillset)
    (spillsets : s'.spillsets = s₃.spillsets)
    (queue : s'.allocationQueue = s₃.allocationQueue ++
      ([bundle, newBundle].filter fun x => !(s'.bundles x).ranges.isEmpty).map
        fun x => ⟨(s'.bundles x).prio, x, regHint⟩)
    (sorted : RangesSorted (s.bundles bundle).ranges) :
    SplitOutcome s s' bundle newBundle point regHint added := by
  have pieces : splitPieces s' bundle newBundle added = splitPieces s₃ bundle newBundle added := by
    simp only [splitPieces, (lists _).1]
  have spilled : spillRanges s' (s.bundles bundle).spillset =
      spillRanges s₃ (s.bundles bundle).spillset :=
    spillRanges_congr (by rw [spillsets]) fun sb _ => (lists sb).1
  exact {
    keptBefore := (lists bundle).1 ▸ inv.keptBefore
    movedAfter := (lists newBundle).1 ▸ inv.movedAfter
    keptReady := (lists bundle).1 ▸ inv.kept.congr fun e _ => by simp [ranges]
    movedReady := (lists newBundle).1 ▸ inv.moved.congr fun e _ => by simp [ranges]
    spilled := spilled.trans inv.spilled
    addedFree := by rw [ranges]; exact inv.addedFree
    points := pieces ▸ inv.points
    once := pieces ▸ inv.points.nodup_iff.mpr (RangesSorted.nodup_points sorted)
    uses := by rw [pieces, entryUses_of_ranges ranges]; exact inv.uses
    spillset := (lists newBundle).2.trans inv.spillsets.2
    tailTrimmed := tail.congr (lists bundle).1 fun e _ => by rw [ranges]
    headTrimmed := head.congr (lists newBundle).1 fun e _ => by rw [ranges]; exact ⟨rfl, rfl⟩
    requeued := by rw [queue, inv.queue] }

/-- `split_and_requeue_bundle` on a well-formed, non-minimal bundle and a requested point
inside it splits at a Before point strictly inside the bundle, with the outcome `SplitOutcome`
states; the new bundle is the next fresh handle. -/
theorem splitAndRequeueBundle_surgery {ctx : Ctx} {s : Env} {bundle splitAt regHint : Nat}
    {first last : LiveRangeListEntry} (ready : SplitReady s bundle)
    (firstEntry : (s.bundles bundle).ranges.head? = some first)
    (lastEntry : (s.bundles bundle).ranges.getLast? = some last)
    (notMinimal : spansOneInst first.range.from last.range.to = false)
    (start_le : first.range.from ≤ splitAt) (lt_end : splitAt < last.range.to) :
    let point := normalizeSplitAt s (s.bundles bundle).ranges first.range.from last.range.to splitAt
    ProgPoint.pos point = .before ∧ first.range.from < point ∧ point < last.range.to ∧
      ∃ s' added, splitAndRequeueBundle ctx s bundle splitAt regHint = .ok s' ∧
        SplitOutcome s s' bundle s.numBundles point regHint added := by
  intro point
  obtain ⟨rest, ranges⟩ := List.head?_eq_some_iff.mp firstEntry
  have lastEq : (first :: rest).getLast (List.cons_ne_nil _ _) = last := by
    rw [ranges, List.getLast?_eq_getLast _ (List.cons_ne_nil _ _)] at lastEntry
    exact Option.some.inj lastEntry
  have firstUse : ∀ pos ∈ firstUseInBundle s (s.bundles bundle).ranges,
      first.range.from ≤ pos ∧ pos < last.range.to := by
    rw [ranges, ← lastEq]; exact firstUseInBundle_inside (ranges ▸ ready.ready)
  obtain ⟨before, after_start, before_end⟩ :=
    normalizeSplitAt_inside notMinimal firstUse start_le lt_end
  refine ⟨(ProgPoint.pos_eq_before_iff _).mpr before, after_start, before_end, ?_⟩
  obtain ⟨s₁, list, straddle, numBundles₁, inv₁⟩ :=
    SplitInv.start ready firstEntry lastEntry after_start before_end
  obtain ⟨s₂, more₂, trimmedTail, inv₂, tail₂⟩ := trimTail_spec _ _ [] inv₁ (Nat.lt_succ_self _)
  obtain ⟨s₃, more₃, trimmedHead, inv₃, head₃, tail₃⟩ :=
    trimHead_spec _ _ _ inv₂ (Nat.lt_succ_self _)
  obtain ⟨s₄, b₄, requeued₄, eq₄, ranges₄, spillset₄, -⟩ :=
    requeueIfNonempty_spec ctx s₃ bundle regHint
  obtain ⟨s₅, b₅, requeued₅, eq₅, ranges₅, spillset₅, -⟩ :=
    requeueIfNonempty_spec ctx s₄ s.numBundles regHint
  have apart := inv₃.apart.1
  refine ⟨s₅, more₂ ++ more₃, ?_, inv₃.outcome (tail₃ tail₂) head₃ (by rw [eq₅, eq₄])
    (fun x => ?_) (by rw [eq₅, eq₄]) ?_ (ranges ▸ ready.ready.sorted)⟩
  · simp only [splitAndRequeueBundle, firstEntry, lastEntry]
    generalize found : splitIndices _ _ 0 (0, 0) = idx
    obtain ⟨lastIdx, firstIdx⟩ := idx
    rw [found] at straddle
    simp only [bind, Except.bind, straddle, (moveToNewBundle_spec s₁ _ list).1, numBundles₁]
    simp only [trimmedTail, trimmedHead, requeued₄, requeued₅]
  · subst eq₄ eq₅
    by_cases here : x = s.numBundles
    · subst here; simp [ranges₅, spillset₅, Function.update_apply, Ne.symm apart]
    · by_cases there : x = bundle
      · subst there; simp [here, ranges₄, spillset₄]
      · simp [here, there]
  · subst eq₄ eq₅
    simp only [Function.update_apply, if_neg (Ne.symm apart)] at ranges₅
    by_cases kept : (s₃.bundles bundle).ranges = [] <;>
      by_cases moved : (s₃.bundles s.numBundles).ranges = [] <;>
      simp [List.filter_cons, apart, Ne.symm apart, ranges₄, ranges₅, kept, moved]

/-- A bundle of one live range `[0, 10)` with uses at 2 and 7: split at 4, it keeps `[0, 4)`,
the new bundle takes `[6, 10)`, and `[4, 6)` goes to a new spill bundle. -/
def splitExample : Env where
  ranges lr := if lr = 0 then
      ⟨⟨0, 10⟩, some 0, 0, [⟨2, ⟨.Use, .reg⟩, 1⟩, ⟨7, ⟨.Use, .reg⟩, 1⟩], 2, false⟩
    else default
  numRanges := 1
  bundles b := if b = 0 then ⟨[⟨⟨0, 10⟩, 0⟩], 0, .none, 10, 0, false, false, false⟩ else default
  numBundles := 1
  spillsets _ := ⟨0, 0, false, none⟩
  vregs _ := ⟨[⟨⟨0, 10⟩, 0⟩]⟩
  pregs _ := ⟨[], false⟩
  allocationQueue := []
  spilledBundles := []

theorem splitExample_ready : SplitReady splitExample 0 where
  ready := ⟨by decide, by decide, fun e member => by
    simp only [splitExample, if_true, List.mem_singleton] at member
    subst member
    exact ⟨by decide, by decide⟩⟩
  vregs := by decide
  inArena := by decide
  bundle_lt := by decide
  spillApart sb found := by simp [splitExample] at found

theorem splitExample_surgery :
    SplitReady splitExample 0 ∧ spansOneInst 0 10 = false ∧
      let point := normalizeSplitAt splitExample (splitExample.bundles 0).ranges 0 10 4
      ProgPoint.pos point = .before ∧ 0 < point ∧ point < 10 ∧
        ∃ s' added, splitAndRequeueBundle probeCtx splitExample 0 4 7 = .ok s' ∧
          SplitOutcome splitExample s' 0 splitExample.numBundles point 7 added :=
  ⟨splitExample_ready, rfl, splitAndRequeueBundle_surgery splitExample_ready rfl rfl rfl
    (by decide) (by decide)⟩

example : (match splitAndRequeueBundle probeCtx splitExample 0 4 7 with
    | .ok s => some ((s.bundles 0).ranges, (s.bundles 1).ranges, (s.bundles 2).ranges,
        s.allocationQueue.map (·.bundle))
    | .error _ => none) =
    some ([⟨⟨0, 4⟩, 0⟩], [⟨⟨6, 10⟩, 1⟩], [⟨⟨4, 6⟩, 2⟩], [0, 1]) := by decide

end IonRegalloc
