import IonRegalloc.Proof.Termination

/-! Who holds the live ranges across `split_and_requeue_bundle`: no live range is lost, and each
one the split creates goes to a half or to the spill bundle. -/

namespace IonRegalloc

/-- The live ranges bundle `x` lists. -/
def heldRanges (s : Env) (x : Nat) : List Nat := (s.bundles x).ranges.map (·.index)

/-- Some bundle of the arena lists live range `lr`. -/
def HeldBy (s : Env) (lr : Nat) : Prop := ∃ x < s.numBundles, lr ∈ heldRanges s x

/-- What `s` keeps of who holds the live ranges of `origin`: a live range some bundle held is
still held by one, and so is every live range created since. -/
structure HeldKept (origin s : Env) : Prop where
  numRanges : origin.numRanges ≤ s.numRanges
  old : ∀ lr, HeldBy origin lr → HeldBy s lr
  fresh : ∀ lr, origin.numRanges ≤ lr → lr < s.numRanges → HeldBy s lr

section Kept

variable {s s' s'' : Env}

theorem HeldKept.refl (s : Env) : HeldKept s s :=
  ⟨le_rfl, fun _ held => held, fun _ lower upper => absurd upper (Nat.not_lt.mpr lower)⟩

theorem HeldKept.trans (first : HeldKept s s') (second : HeldKept s' s'') : HeldKept s s'' where
  numRanges := first.numRanges.trans second.numRanges
  old lr held := second.old lr (first.old lr held)
  fresh lr lower upper := by
    by_cases older : lr < s'.numRanges
    · exact second.old lr (first.fresh lr lower older)
    · exact second.fresh lr (Nat.le_of_not_lt older) upper

theorem HeldKept.ofHeld (numRanges : s'.numRanges = s.numRanges)
    (held : ∀ x < s.numBundles, ∀ lr ∈ heldRanges s x, HeldBy s' lr) : HeldKept s s' where
  numRanges := numRanges.ge
  old lr := fun ⟨x, bound, member⟩ => held x bound lr member
  fresh _ lower upper := absurd (numRanges ▸ upper) (Nat.not_lt.mpr lower)

theorem HeldKept.ofBundles (numRanges : s'.numRanges = s.numRanges)
    (numBundles : s.numBundles ≤ s'.numBundles)
    (bundles : ∀ x < s.numBundles, heldRanges s x ⊆ heldRanges s' x) : HeldKept s s' :=
  HeldKept.ofHeld numRanges fun x bound _ member =>
    ⟨x, lt_of_lt_of_le bound numBundles, bundles x bound member⟩

theorem HeldKept.cut {sb : Nat} (bound : sb < s.numBundles)
    (numRanges : s'.numRanges = s.numRanges + 1) (numBundles : s'.numBundles = s.numBundles)
    (bundles : ∀ x, heldRanges s x ⊆ heldRanges s' x) (fresh : s.numRanges ∈ heldRanges s' sb) :
    HeldKept s s' where
  numRanges := numRanges ▸ Nat.le_succ _
  old _ := fun ⟨x, bound', held⟩ => ⟨x, numBundles ▸ bound', bundles x held⟩
  fresh lr lower upper := by
    obtain rfl : lr = s.numRanges := by omega
    exact ⟨sb, numBundles ▸ bound, fresh⟩

theorem HeldKept.popped {sb x : Nat} {entry : LiveRangeListEntry}
    {g : List LiveRangeListEntry → List LiveRangeListEntry} (apart : sb ≠ x)
    (bound : sb < s.numBundles)
    (rest : ∀ e ∈ (s.bundles x).ranges, e ∈ g (s.bundles x).ranges ∨ e = entry)
    (popped : s' = ((s.updateBundle sb fun b => { b with ranges := b.ranges ++ [entry] }).updateBundle
      x fun b => { b with ranges := g b.ranges }).updateRange entry.index
        fun r => { r with bundle := sb }) : HeldKept s s' := by
  subst popped
  refine HeldKept.ofHeld (by simp) fun y yBound lr held => ?_
  obtain ⟨e, member, rfl⟩ := List.mem_map.mp held
  by_cases atX : y = x
  · subst atX
    rcases rest e member with stays | moved
    · exact ⟨y, by simpa using yBound, by simp [heldRanges, Ne.symm apart]; exact ⟨e, stays, rfl⟩⟩
    · subst moved
      exact ⟨sb, by simpa using bound, by simp [heldRanges, apart]⟩
  · refine ⟨y, by simpa using yBound, ?_⟩
    by_cases atSb : y = sb
    · subst atSb; simp [heldRanges, atX]; exact .inl ⟨e, member, rfl⟩
    · simp [heldRanges, atX, atSb]; exact ⟨e, member, rfl⟩

end Kept

theorem mem_dropLast_or {α : Type} {l : List α} {a : α} (last : l.getLast? = some a) :
    ∀ e ∈ l, e ∈ l.dropLast ∨ e = a := by
  obtain ⟨init, rfl⟩ := List.getLast?_eq_some_iff.mp last
  simp

theorem mem_drop_one_or {α : Type} {l : List α} {a : α} (first : l.head? = some a) :
    ∀ e ∈ l, e ∈ l.drop 1 ∨ e = a := by
  obtain ⟨rest, rfl⟩ := List.head?_eq_some_iff.mp first
  simp [or_comm]

theorem getOrCreateSpillBundle_held (s : Env) (bundle : Nat) (create : Bool) :
    HeldKept s (getOrCreateSpillBundle s bundle create).2 := by
  simp only [getOrCreateSpillBundle]
  split
  · exact HeldKept.refl s
  · split
    · refine HeldKept.ofBundles rfl (by simp [Env.createBundle]) fun x bound => ?_
      simp [heldRanges, Env.createBundle, Nat.ne_of_lt bound]
    · exact HeldKept.refl s

theorem HeldKept.requeue {ctx : Ctx} {s s' : Env} {x regHint : Nat}
    (run : requeueIfNonempty ctx s x regHint = .ok s') : HeldKept s s' := by
  obtain ⟨s'', b, run', requeued, ranges, -⟩ := requeueIfNonempty_spec ctx s x regHint
  rw [Except.ok.inj (run.symm.trans run'), requeued]
  refine HeldKept.ofBundles rfl le_rfl fun y _ => ?_
  by_cases here : y = x
  · subst here; simp [heldRanges, ranges]
  · simp [heldRanges, here]

/-- What `splitStraddle` does with the list it is handed: each of its live ranges stays in the
returned list but a straddling head, and the live range it creates heads the returned list. -/
theorem splitStraddle_held {s s₁ : Env} {bundle last point : Nat}
    {l list : List LiveRangeListEntry} (run : splitStraddle s bundle last point l = .ok (s₁, list)) :
    (∀ e ∈ l, e ∈ list ∨ l.head? = some e ∧ e.range.from < point) ∧
      ∀ lr, s.numRanges ≤ lr → lr < s₁.numRanges → lr ∈ list.map (·.index) := by
  cases l with
  | nil => cases run
  | cons head tail =>
    simp only [splitStraddle, recomputeRangeProperties] at run
    split at run
    · rename_i straddles
      split at run
      · split at run
        · cases run
        · simp only [Except.ok.injEq, Prod.mk.injEq] at run
          obtain ⟨rfl, rfl⟩ := run
          refine ⟨fun e member => ?_, fun lr lower upper => ?_⟩
          · rcases List.mem_cons.mp member with rfl | inTail
            · exact .inr ⟨rfl, straddles⟩
            · exact .inl (List.mem_cons_of_mem _ inTail)
          · simp at upper
            exact List.mem_cons.mpr (.inl (by simp; omega))
      · cases run
    · simp only [Except.ok.injEq, Prod.mk.injEq] at run
      obtain ⟨rfl, rfl⟩ := run
      exact ⟨fun e member => .inl member, fun lr lower upper => absurd upper (Nat.not_lt.mpr lower)⟩

theorem moveToNewBundle_held (s : Env) (spillset : Nat) (list : List LiveRangeListEntry) :
    (∀ lr ∈ list.map (·.index), HeldBy (moveToNewBundle s spillset list).2 lr) ∧
      ∀ y < s.numBundles, ∀ lr ∈ heldRanges s y, HeldBy (moveToNewBundle s spillset list).2 lr := by
  rw [(moveToNewBundle_spec s spillset list).2]
  exact ⟨fun lr member => ⟨s.numBundles, Nat.lt_succ_self _, by simpa [heldRanges] using member⟩,
    fun y bound lr member => ⟨y, Nat.lt_succ_of_lt bound,
      by simpa [heldRanges, Function.update_noteq (Nat.ne_of_lt bound)] using member⟩⟩

/-- The cut of `split_and_requeue_bundle` loses no live range when the kept part reaches the
start of the handed-over part, and a straddling head of that part stays in the kept part: the
live ranges of the bundle stay in it or go to the new bundle, and the new bundle lists the live
range the cut creates. -/
theorem HeldKept.start {s s₁ : Env} {bundle spillset point n last first : Nat}
    {list : List LiveRangeListEntry}
    (run : splitStraddle (s.updateBundle bundle fun b => { b with ranges := b.ranges.take n })
      bundle last point ((s.bundles bundle).ranges.drop first) = .ok (s₁, list))
    (reaches : first ≤ n)
    (straddled : ∀ e, ((s.bundles bundle).ranges.drop first).head? = some e →
      e.range.from < point → e ∈ (s.bundles bundle).ranges.take n) :
    HeldKept s (moveToNewBundle s₁ spillset list).2 := by
  obtain ⟨others, keptIdx, -, -, -, -, numRanges₁, numBundles₁, -⟩ := splitStraddle_frame run
  obtain ⟨inList, fresh⟩ := splitStraddle_held run
  obtain ⟨moved, stays⟩ := moveToNewBundle_held s₁ spillset list
  simp only [Env.updateBundle_numBundles, Env.updateBundle_numRanges] at numBundles₁ numRanges₁
  have numRanges : (moveToNewBundle s₁ spillset list).2.numRanges = s₁.numRanges := by
    rw [(moveToNewBundle_spec s₁ spillset list).2]
  refine ⟨numRanges ▸ numRanges₁, fun lr ⟨y, yBound, held⟩ => ?_, fun lr lower upper =>
    moved lr (fresh lr (by simpa using lower) (numRanges ▸ upper))⟩
  have yBound₁ : y < s₁.numBundles := numBundles₁ ▸ yBound
  by_cases atBundle : y = bundle
  · subst atBundle
    obtain ⟨e, member, rfl⟩ := List.mem_map.mp held
    have kept : e ∈ (s.bundles y).ranges.take n → HeldBy _ e.index := fun inTake =>
      stays y yBound₁ _ (by rw [heldRanges, keptIdx]; simpa using List.mem_map_of_mem _ inTake)
    rw [← List.take_append_drop first (s.bundles y).ranges] at member
    rcases List.mem_append.mp member with before | after
    · exact kept (List.take_subset_take_left _ reaches before)
    · rcases inList e after with inNew | ⟨head, straddles⟩
      · exact moved _ (List.mem_map_of_mem _ inNew)
      · exact kept (straddled e head straddles)
  · exact stays y yBound₁ lr (by
      rw [heldRanges, others y atBundle]; simpa [atBundle, heldRanges] using held)

/-- The scan's indices make the kept part reach the start of the handed-over part, and a
handed-over head that starts before the split point is the last range of the kept part. -/
theorem splitIndices_cover {s : Env} {bundle point : Nat} {first last : LiveRangeListEntry}
    (ready : SplitReady s bundle) (firstEntry : (s.bundles bundle).ranges.head? = some first)
    (lastEntry : (s.bundles bundle).ranges.getLast? = some last)
    (after_start : first.range.from < point) (before_end : point < last.range.to) :
    (splitIndices point (s.bundles bundle).ranges 0 (0, 0)).2 ≤
        (splitIndices point (s.bundles bundle).ranges 0 (0, 0)).1 + 1 ∧
      ∀ e, ((s.bundles bundle).ranges.drop
          (splitIndices point (s.bundles bundle).ranges 0 (0, 0)).2).head? = some e →
        e.range.from < point → e ∈ (s.bundles bundle).ranges.take
          ((splitIndices point (s.bundles bundle).ranges 0 (0, 0)).1 + 1) := by
  obtain ⟨rest, ranges⟩ := List.head?_eq_some_iff.mp firstEntry
  have lastEq : (first :: rest).getLast (List.cons_ne_nil _ _) = last := by
    rw [ranges, List.getLast?_eq_getLast _ (List.cons_ne_nil _ _)] at lastEntry
    exact Option.some.inj lastEntry
  obtain ⟨r, tail, whole, -, reach, indices⟩ :=
    splitIndices_eq (ranges ▸ ready.ready.sorted) after_start (lastEq ▸ before_end)
  rw [ranges, indices]
  generalize keptBy point (first :: rest) = kept at whole reach
  rw [whole]
  by_cases straddles : r.range.from < point
  · simp only [if_pos straddles, List.drop_left, List.head?_cons, Option.some.injEq]
    refine ⟨Nat.le_succ _, fun e head _ => ?_⟩
    subst head
    simp [List.take_append_eq_append_take]
  · have nonempty := List.length_pos.mpr (reach.resolve_left straddles)
    simp only [if_neg straddles, List.drop_left, List.head?_cons, Option.some.injEq]
    exact ⟨by omega, fun e head before => absurd (head ▸ before) straddles⟩

section Trims

variable {origin s s' : Env} {bundle newBundle spillset point : Nat}
  {added : List LiveRangeListEntry}

theorem HeldKept.cutLast (inv : SplitInv origin s bundle newBundle spillset point added)
    {sb q : Nat} {entry : LiveRangeListEntry} (spill : (s.spillsets spillset).spillBundle = some sb)
    (last : (s.bundles bundle).ranges.getLast? = some entry)
    (cut : cutTail s bundle sb q entry.range.to (s.ranges entry.index).vreg = .ok s') :
    HeldKept s s' := by
  obtain ⟨init, whole⟩ := List.getLast?_eq_some_iff.mp last
  have entryIn := List.mem_of_getLast?_eq_some last
  obtain ⟨v, vreg⟩ :=
    Option.isSome_iff_exists.mp (inv.vregs entry (List.mem_append_left _ entryIn))
  rw [vreg] at cut
  obtain ⟨apart, -, bound⟩ := inv.spillApart sb spill
  obtain ⟨s'', run, bundles', -, numRanges', numBundles', -⟩ :=
    cutTail_spec q v whole apart (inv.inArena entry (by simp [splitPieces, entryIn]))
  obtain rfl : s' = s'' := Except.ok.inj (cut.symm.trans run)
  refine HeldKept.cut bound numRanges' numBundles' (fun x => ?_) (by simp [heldRanges, bundles'])
  by_cases atSpill : x = sb
  · subst atSpill; simp [heldRanges, bundles']
  · by_cases atBundle : x = bundle
    · subst atBundle; simp [heldRanges, bundles', whole, atSpill]
    · simp [heldRanges, bundles', atSpill, atBundle]

theorem HeldKept.cutFirst (inv : SplitInv origin s bundle newBundle spillset point added)
    {sb q : Nat} {entry : LiveRangeListEntry} (spill : (s.spillsets spillset).spillBundle = some sb)
    (first : (s.bundles newBundle).ranges.head? = some entry)
    (cut : cutHead s newBundle sb q entry.range.from (s.ranges entry.index).vreg = .ok s') :
    HeldKept s s' := by
  obtain ⟨rest, whole⟩ := List.head?_eq_some_iff.mp first
  have entryIn := List.mem_of_mem_head? first
  obtain ⟨v, vreg⟩ :=
    Option.isSome_iff_exists.mp (inv.vregs entry (List.mem_append_right _ entryIn))
  rw [vreg] at cut
  obtain ⟨-, apart, bound⟩ := inv.spillApart sb spill
  obtain ⟨s'', run, bundles', -, numRanges', numBundles', -⟩ :=
    cutHead_spec q v whole apart (inv.inArena entry (by simp [splitPieces, entryIn]))
  obtain rfl : s' = s'' := Except.ok.inj (cut.symm.trans run)
  refine HeldKept.cut bound numRanges' numBundles' (fun x => ?_) (by simp [heldRanges, bundles'])
  by_cases atSpill : x = sb
  · subst atSpill; simp [heldRanges, bundles']
  · by_cases atNew : x = newBundle
    · subst atNew; simp [heldRanges, bundles', whole, atSpill]
    · simp [heldRanges, bundles', atSpill, atNew]

theorem trimTail_held : ∀ (fuel : Nat) (s : Env) (added : List LiveRangeListEntry),
    SplitInv origin s bundle newBundle spillset point added →
    trimTail s bundle fuel = .ok s' → HeldKept s s'
  | 0, _, _, _, run => by cases run
  | fuel + 1, s, added, inv, run => by
    cases last : (s.bundles bundle).ranges.getLast? with
    | none =>
      simp only [trimTail, last, Except.ok.injEq] at run
      exact run ▸ HeldKept.refl s
    | some entry =>
      obtain ⟨sb, s₁, found, spill, inv₁, ranges₁, -, -, others₁⟩ := inv.getOrCreate (.inl rfl)
      have held₁ := getOrCreateSpillBundle_held s bundle true
      rw [found] at held₁
      have last₁ : (s₁.bundles bundle).ranges.getLast? = some entry := by
        rw [others₁ _ (Ne.symm (inv₁.spillApart sb spill).1), last]
      cases lastUse : (s.ranges entry.index).uses.getLast? with
      | none =>
        simp only [trimTail, last, lastUse, found] at run
        obtain ⟨apart, -, bound⟩ := inv₁.spillApart sb spill
        exact held₁.trans ((HeldKept.popped (g := List.dropLast) apart bound
          (mem_dropLast_or last₁) rfl).trans (trimTail_held fuel _ _
            (inv₁.popLast spill last₁ (by rw [ranges₁]; simpa using lastUse) rfl) run))
      | some u =>
        by_cases cuts : ProgPoint.before (ProgPoint.inst u.pos + 1) < entry.range.to
        · simp only [trimTail, last, lastUse, if_pos cuts, found] at run
          rw [← ranges₁] at run
          exact held₁.trans (HeldKept.cutLast inv₁ spill last₁ run)
        · simp only [trimTail, last, lastUse, if_neg cuts, Except.ok.injEq] at run
          exact run ▸ HeldKept.refl s

theorem trimHead_held : ∀ (fuel : Nat) (s : Env) (added : List LiveRangeListEntry),
    SplitInv origin s bundle newBundle spillset point added →
    trimHead s newBundle fuel = .ok s' → HeldKept s s'
  | 0, _, _, _, run => by cases run
  | fuel + 1, s, added, inv, run => by
    cases first : (s.bundles newBundle).ranges.head? with
    | none =>
      simp only [trimHead, first, Except.ok.injEq] at run
      exact run ▸ HeldKept.refl s
    | some entry =>
      by_cases atDef : (s.ranges entry.index).startsAtDef = true
      · simp only [trimHead, first, atDef, if_true, Except.ok.injEq] at run
        exact run ▸ HeldKept.refl s
      obtain ⟨sb, s₁, found, spill, inv₁, ranges₁, -, -, others₁⟩ := inv.getOrCreate (.inr rfl)
      have held₁ := getOrCreateSpillBundle_held s newBundle true
      rw [found] at held₁
      have first₁ : (s₁.bundles newBundle).ranges.head? = some entry := by
        rw [others₁ _ (Ne.symm (inv₁.spillApart sb spill).2.1), first]
      cases firstUse : (s.ranges entry.index).uses.head? with
      | none =>
        simp only [trimHead, first, atDef, firstUse, found] at run
        obtain ⟨-, apart, bound⟩ := inv₁.spillApart sb spill
        exact held₁.trans ((HeldKept.popped (g := List.drop 1) apart bound
          (mem_drop_one_or first₁) rfl).trans (trimHead_held fuel _ _
            (inv₁.popFirst spill first₁ (by rw [ranges₁]; simpa using firstUse) rfl) run))
      | some u =>
        by_cases cuts : entry.range.from < ProgPoint.before (ProgPoint.inst u.pos)
        · simp only [trimHead, first, atDef, firstUse, if_pos cuts, found] at run
          rw [← ranges₁] at run
          exact held₁.trans (HeldKept.cutFirst inv₁ spill first₁ run)
        · simp only [trimHead, first, atDef, firstUse, if_neg cuts] at run
          simp only [Bool.false_eq_true, if_false, Except.ok.injEq] at run
          exact run ▸ HeldKept.refl s

end Trims

section Steps

variable {s : Env} {b : Nat}

theorem HeldKept.shape {s' : Env} (shape : SameShape s s') : HeldKept s s' :=
  HeldKept.ofBundles shape.numRanges shape.numBundles.ge fun x _ => by
    rw [heldRanges, heldRanges, (shape.bundles x).1]; exact List.Subset.refl _

theorem HeldKept.moveToSpill (inv : AllocInv s) (pending : Pending s b) {spill : Nat}
    (found : (s.spillsets (s.bundles b).spillset).spillBundle = some spill) :
    HeldKept s (moveToSpillBundle s b spill) := by
  have apart : spill ≠ b := fun same => pending.allocatable.2 (same ▸ found)
  have spillBound := (inv.spillOf _ spill found).1
  obtain ⟨-, -, numBundles, numRanges, -, -⟩ := moveToSpillBundle_frame s b spill
  refine HeldKept.ofHeld numRanges fun x bound lr member => ?_
  by_cases atB : x = b
  · subst atB
    exact ⟨spill, numBundles ▸ spillBound, by
      simp only [heldRanges, moveToSpillBundle_bundles apart, if_true, List.map_append]
      exact List.mem_append_right _ member⟩
  · refine ⟨x, numBundles ▸ bound, ?_⟩
    simp only [heldRanges, moveToSpillBundle_bundles apart, if_neg atB]
    split_ifs with atSpill
    · subst atSpill; rw [List.map_append]; exact List.mem_append_left _ member
    · exact member

end Steps

end IonRegalloc
