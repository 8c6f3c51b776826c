import Mathlib.Data.Multiset.Basic
import IonRegalloc.Proof.Held

/-! The lazy VReg back-index over runs: the lists only gain the live ranges a split creates, keep
covering the same points and uses, and list every live range of an allocatable bundle. -/

namespace IonRegalloc

/-- The live ranges listed for `v`. -/
def listedRanges (s : Env) (v : Nat) : List Nat := (s.vregs v).ranges.map (·.index)

/-- The program points the arena range of live range `lr` covers. -/
def rangePoints (s : Env) (lr : Nat) : List Nat :=
  List.range' (s.ranges lr).range.from (s.ranges lr).range.len

/-- The uses the arena records for live range `lr`. -/
def rangeUses (s : Env) (lr : Nat) : List Use := (s.ranges lr).uses

/-- What the live ranges of a list hold of `g`, read from the arena, with repeats. -/
def listTally {β : Type} (g : Env → Nat → List β) (s : Env) (l : List LiveRangeListEntry) :
    List β :=
  l.flatMap fun e => g s e.index

/-- The program points `v`'s listed live ranges cover in the arena, with repeats. -/
def vregPoints (s : Env) (v : Nat) : Multiset Nat := listTally rangePoints s (s.vregs v).ranges

/-- The uses of `v`'s listed live ranges, with repeats. -/
def vregUses (s : Env) (v : Nat) : Multiset Use := listTally rangeUses s (s.vregs v).ranges

/-- The VReg lists: each lists distinct live ranges of the arena, and no live range is listed for
two VRegs. -/
structure VRegLists (s : Env) : Prop where
  nodup : ∀ v, (listedRanges s v).Nodup
  inArena : ∀ v, ∀ lr ∈ listedRanges s v, lr < s.numRanges
  exclusive : ∀ v w lr, lr ∈ listedRanges s v → lr ∈ listedRanges s w → v = w

/-- Every live range of the list is listed for its VReg. -/
def IndexedIn (s : Env) (l : List LiveRangeListEntry) : Prop :=
  ∀ e ∈ l, ∀ v, (s.ranges e.index).vreg = some v → e.index ∈ listedRanges s v

/-- The back-index a split relies on: the VReg lists are well formed and list every live range of
an allocatable bundle for its VReg. -/
structure VRegIndexed (s : Env) : Prop where
  lists : VRegLists s
  indexed : ∀ x, Allocatable s x → IndexedIn s (s.bundles x).ranges

/-- What the arena's VReg lists in `s` keep of those in `origin`: they are well formed, only grew
at their ends and only by live ranges created since, and every VReg's live ranges cover the same
points and carry the same uses; the live ranges of `origin` keep their VReg, and a live range
created since that has a VReg is listed for it. -/
structure VRegKept (origin s : Env) : Prop where
  lists : VRegLists s
  points : ∀ v, (listTally rangePoints s (s.vregs v).ranges).Perm
    (listTally rangePoints origin (origin.vregs v).ranges)
  uses : ∀ v, (listTally rangeUses s (s.vregs v).ranges).Perm
    (listTally rangeUses origin (origin.vregs v).ranges)
  grown : ∀ v, listedRanges origin v <+: listedRanges s v
  appended : ∀ v, ∀ lr ∈ listedRanges s v, lr ∈ listedRanges origin v ∨ origin.numRanges ≤ lr
  vreg : ∀ lr < origin.numRanges, (s.ranges lr).vreg = (origin.ranges lr).vreg
  numRanges : origin.numRanges ≤ s.numRanges
  fresh : ∀ lr, origin.numRanges ≤ lr → lr < s.numRanges → ∀ v, (s.ranges lr).vreg = some v →
    lr ∈ listedRanges s v

section Tally

variable {β : Type} {g : Env → Nat → List β} {s s' : Env}

@[simp] theorem listTally_nil : listTally g s [] = [] := rfl

@[simp] theorem listTally_cons (e : LiveRangeListEntry) (l : List LiveRangeListEntry) :
    listTally g s (e :: l) = g s e.index ++ listTally g s l := rfl

@[simp] theorem listTally_append (l l' : List LiveRangeListEntry) :
    listTally g s (l ++ l') = listTally g s l ++ listTally g s l' := List.flatMap_append _ _ _

theorem listTally_congr {l : List LiveRangeListEntry}
    (same : ∀ e ∈ l, g s' e.index = g s e.index) : listTally g s' l = listTally g s l := by
  induction l with
  | nil => rfl
  | cons e rest ih =>
    rw [listTally_cons, listTally_cons, same e (List.mem_cons_self _ _),
      ih fun x member => same x (List.mem_cons_of_mem _ member)]

/-- Cutting a listed live range `lr` in two, the second part a fresh live range appended to the
list, keeps what the list holds. -/
theorem listTally_cut {l : List LiveRangeListEntry} {lr fresh : Nat} (x : LiveRangeListEntry)
    (isFresh : x.index = fresh) (nodup : (l.map (·.index)).Nodup)
    (member : lr ∈ l.map (·.index)) (outside : fresh ∉ l.map (·.index))
    (same : ∀ i, i ≠ lr → i ≠ fresh → g s' i = g s i)
    (cut : (g s' lr ++ g s' fresh).Perm (g s lr)) :
    (listTally g s' (l ++ [x])).Perm (listTally g s l) := by
  obtain ⟨e, eIn, rfl⟩ := List.mem_map.mp member
  obtain ⟨before, after, rfl⟩ := List.append_of_mem eIn
  have others := index_ne_of_nodup nodup
  have keep : ∀ y ∈ before ++ after, g s' y.index = g s y.index := fun y yIn =>
    same _ (others y yIn) fun isNew => outside (isNew ▸ List.mem_map_of_mem _ (by
      rcases List.mem_append.mp yIn with inBefore | inAfter
      exacts [List.mem_append_left _ inBefore,
        List.mem_append_right _ (List.mem_cons_of_mem _ inAfter)]))
  simp only [listTally_append, listTally_cons, listTally_nil, List.append_nil, List.append_assoc,
    isFresh]
  rw [listTally_congr fun y yIn => keep y (List.mem_append_left _ yIn),
    listTally_congr fun y yIn => keep y (List.mem_append_right _ yIn)]
  refine ((List.perm_append_comm.append_left _).trans ?_).append_left _
  rw [← List.append_assoc]
  exact cut.append_right _

end Tally

section Kept

variable {origin s s' : Env}

theorem VRegLists.congr (lists : VRegLists s) (listed : ∀ v, listedRanges s' v = listedRanges s v)
    (numRanges : s.numRanges ≤ s'.numRanges) : VRegLists s' where
  nodup v := listed v ▸ lists.nodup v
  inArena v lr member := lt_of_lt_of_le (lists.inArena v lr (listed v ▸ member)) numRanges
  exclusive v w lr inV inW := lists.exclusive v w lr (listed v ▸ inV) (listed w ▸ inW)

theorem VRegKept.refl (lists : VRegLists s) : VRegKept s s :=
  ⟨lists, fun _ => List.Perm.refl _, fun _ => List.Perm.refl _, fun _ => List.prefix_refl _,
    fun _ _ member => .inl member, fun _ _ => rfl, le_rfl, fun _ lower upper => absurd upper (Nat.not_lt.mpr lower)⟩

theorem VRegKept.same (kept : VRegKept origin s) (vregs : s'.vregs = s.vregs)
    (numRanges : s'.numRanges = s.numRanges)
    (ranges : ∀ i, (s'.ranges i).range = (s.ranges i).range ∧
      (s'.ranges i).uses = (s.ranges i).uses ∧ (s'.ranges i).vreg = (s.ranges i).vreg) :
    VRegKept origin s' := by
  have listed : ∀ v, listedRanges s' v = listedRanges s v := fun v => by
    rw [listedRanges, listedRanges, vregs]
  refine ⟨kept.lists.congr listed numRanges.ge, fun v => ?_, fun v => ?_,
    fun v => listed v ▸ kept.grown v, fun v lr member => kept.appended v lr (listed v ▸ member),
    fun lr bound => (ranges lr).2.2.trans (kept.vreg lr bound),
    numRanges ▸ kept.numRanges, fun lr lower upper v isV => listed v ▸
      kept.fresh lr lower (numRanges ▸ upper) v ((ranges lr).2.2 ▸ isV)⟩
  · have same : ∀ i, rangePoints s' i = rangePoints s i := fun i => by
      simp only [rangePoints, (ranges i).1]
    rw [vregs, listTally_congr fun e _ => same e.index]
    exact kept.points v
  · rw [vregs, listTally_congr fun e _ => (ranges e.index).2.1]
    exact kept.uses v

section Cut

variable {lr v : Nat} {r : CodeRange}

theorem listedRanges_append
    (vregs : s'.vregs = Function.update s.vregs v
      { s.vregs v with ranges := (s.vregs v).ranges ++ [⟨r, s.numRanges⟩] }) (w : Nat) :
    listedRanges s' w = if w = v then listedRanges s v ++ [s.numRanges] else listedRanges s w := by
  by_cases here : w = v
  · subst here; simp [listedRanges, vregs]
  · simp [listedRanges, vregs, here]

theorem mem_listedRanges_append
    (vregs : s'.vregs = Function.update s.vregs v
      { s.vregs v with ranges := (s.vregs v).ranges ++ [⟨r, s.numRanges⟩] }) (w i : Nat) :
    i ∈ listedRanges s' w ↔ i ∈ listedRanges s w ∨ w = v ∧ i = s.numRanges := by
  rw [listedRanges_append vregs]
  split <;> simp_all

theorem VRegLists.append (lists : VRegLists s)
    (vregs : s'.vregs = Function.update s.vregs v
      { s.vregs v with ranges := (s.vregs v).ranges ++ [⟨r, s.numRanges⟩] })
    (numRanges : s'.numRanges = s.numRanges + 1) : VRegLists s' := by
  have fresh : ∀ w, s.numRanges ∉ listedRanges s w := fun w member =>
    Nat.lt_irrefl _ (lists.inArena w _ member)
  have mem := mem_listedRanges_append vregs
  refine ⟨fun w => ?_, fun w i member => ?_, fun w w' i inW inW' => ?_⟩
  · rw [listedRanges_append vregs]
    split_ifs with here
    · subst here
      exact (lists.nodup w).append (List.nodup_singleton _)
        (List.disjoint_singleton.mpr (fresh w))
    · exact lists.nodup w
  · rw [numRanges]
    rcases (mem w i).mp member with old | ⟨-, rfl⟩
    · exact Nat.lt_succ_of_lt (lists.inArena w i old)
    · exact Nat.lt_succ_self _
  · rcases (mem w i).mp inW with old | ⟨atV, isFresh⟩
    · rcases (mem w' i).mp inW' with old' | ⟨-, isFresh'⟩
      · exact lists.exclusive w w' i old old'
      · exact absurd (isFresh' ▸ old) (fresh w)
    · rcases (mem w' i).mp inW' with old' | ⟨atV', -⟩
      · exact absurd (isFresh ▸ old') (fresh w')
      · exact atV.trans atV'.symm

theorem tally_cut {β : Type} {g : Env → Nat → List β} (lists : VRegLists s)
    (listed : lr ∈ listedRanges s v)
    (vregs : s'.vregs = Function.update s.vregs v
      { s.vregs v with ranges := (s.vregs v).ranges ++ [⟨r, s.numRanges⟩] })
    (others : ∀ i, i ≠ lr → i ≠ s.numRanges → g s' i = g s i)
    (cut : (g s' lr ++ g s' s.numRanges).Perm (g s lr)) (w : Nat) :
    (listTally g s' (s'.vregs w).ranges).Perm (listTally g s (s.vregs w).ranges) := by
  by_cases here : w = v
  · subst here
    rw [vregs, Function.update_same]
    exact listTally_cut _ rfl (lists.nodup w) listed
      (fun fresh => Nat.lt_irrefl _ (lists.inArena w _ fresh)) others cut
  · rw [vregs, Function.update_noteq here]
    refine List.Perm.of_eq (listTally_congr fun e member => others _ ?_ ?_)
    · rintro same
      exact here (lists.exclusive _ _ _ (same ▸ List.mem_map_of_mem _ member) listed)
    · rintro fresh
      exact Nat.lt_irrefl _ (fresh ▸ lists.inArena w _ (List.mem_map_of_mem _ member))

/-- Cutting the live range `lr`, listed for `v`, into itself and the fresh live range
`s.numRanges` appended to `v`'s list keeps what the lists hold, when the two pieces cover the
points of `lr` and carry its uses. -/
theorem VRegKept.cut (kept : VRegKept origin s) (listed : lr ∈ listedRanges s v)
    (vregs : s'.vregs = Function.update s.vregs v
      { s.vregs v with ranges := (s.vregs v).ranges ++ [⟨r, s.numRanges⟩] })
    (numRanges : s'.numRanges = s.numRanges + 1)
    (others : ∀ i, i ≠ lr → i ≠ s.numRanges → s'.ranges i = s.ranges i)
    (vreg : (s'.ranges lr).vreg = (s.ranges lr).vreg)
    (freshVreg : (s'.ranges s.numRanges).vreg = none ∨ (s'.ranges s.numRanges).vreg = some v)
    (points : (rangePoints s' lr ++ rangePoints s' s.numRanges).Perm (rangePoints s lr))
    (uses : (rangeUses s' lr ++ rangeUses s' s.numRanges).Perm (rangeUses s lr)) :
    VRegKept origin s' := by
  have mem := mem_listedRanges_append vregs
  refine ⟨kept.lists.append vregs numRanges,
    fun w => (tally_cut kept.lists listed vregs (fun i ne₁ ne₂ => by
      rw [rangePoints, rangePoints, others i ne₁ ne₂]) points w).trans (kept.points w),
    fun w => (tally_cut kept.lists listed vregs (fun i ne₁ ne₂ => by
      rw [rangeUses, rangeUses, others i ne₁ ne₂]) uses w).trans (kept.uses w),
    fun w => ?_, fun w i member => ?_, fun i lower => ?_,
    numRanges ▸ Nat.le_succ_of_le kept.numRanges, fun i lower upper w isW => ?_⟩
  · rw [listedRanges_append vregs]
    split_ifs with here
    · subst here; exact (kept.grown w).trans (List.prefix_append _ _)
    · exact kept.grown w
  · rcases (mem w i).mp member with old | ⟨-, rfl⟩
    · exact kept.appended w i old
    · exact .inr kept.numRanges
  · have ne : i ≠ s.numRanges := Nat.ne_of_lt (lt_of_lt_of_le lower kept.numRanges)
    by_cases here : i = lr
    · subst here; rw [vreg]; exact kept.vreg i lower
    · rw [others i here ne]; exact kept.vreg i lower
  · rw [numRanges] at upper
    rcases Nat.lt_succ_iff_lt_or_eq.mp upper with older | rfl
    · have old : (s'.ranges i).vreg = (s.ranges i).vreg := by
        by_cases here : i = lr
        · subst here; exact vreg
        · rw [others i here (Nat.ne_of_lt older)]
      exact (mem w i).mpr (.inl (kept.fresh i lower older w (old ▸ isW)))
    · rcases freshVreg with none | atV
      · rw [none] at isW; cases isW
      · rw [atV, Option.some.injEq] at isW
        exact (mem w _).mpr (.inr ⟨isW.symm, rfl⟩)

end Cut

theorem VRegKept.listed {bundle : Nat} (kept : VRegKept origin s)
    (indexed : IndexedIn origin (origin.bundles bundle).ranges)
    (inArena : ∀ e ∈ (origin.bundles bundle).ranges, e.index < origin.numRanges) {lr v : Nat}
    (from_ : lr ∈ (origin.bundles bundle).ranges.map (·.index) ∨ origin.numRanges ≤ lr)
    (bound : lr < s.numRanges) (isV : (s.ranges lr).vreg = some v) : lr ∈ listedRanges s v := by
  rcases from_ with old | fresh
  · obtain ⟨e, member, rfl⟩ := List.mem_map.mp old
    have bound' := inArena e member
    exact (kept.grown v).subset (indexed e member v (kept.vreg _ bound' ▸ isV))
  · exact kept.fresh lr fresh bound v isV

end Kept

theorem getOrCreateSpillBundle_keeps (s : Env) (bundle : Nat) (create : Bool) :
    (getOrCreateSpillBundle s bundle create).2.vregs = s.vregs ∧
      (getOrCreateSpillBundle s bundle create).2.ranges = s.ranges ∧
      (getOrCreateSpillBundle s bundle create).2.numRanges = s.numRanges := by
  simp only [getOrCreateSpillBundle]
  split
  · exact ⟨rfl, rfl, rfl⟩
  · split <;> exact ⟨rfl, rfl, rfl⟩

section Steps

variable {origin s s' : Env} {bundle newBundle spillset point : Nat}
  {added : List LiveRangeListEntry}

/-- The cut of `split_and_requeue_bundle`: truncating the bundle, cutting a range straddling the
split point in two, and moving the rest to a new bundle keeps what the VReg lists hold. -/
theorem VRegKept.start (ready : SplitReady s bundle) (lists : VRegLists s)
    (indexed : IndexedIn s (s.bundles bundle).ranges) {n last first : Nat} {s₁ : Env}
    {list : List LiveRangeListEntry}
    (run : splitStraddle (s.updateBundle bundle fun b => { b with ranges := b.ranges.take n })
      bundle last point ((s.bundles bundle).ranges.drop first) = .ok (s₁, list))
    (nonempty : ∀ e ∈ list, e.range.from < e.range.to) :
    VRegKept s (moveToNewBundle s₁ spillset list).2 := by
  have keptA : VRegKept s (s.updateBundle bundle fun b => { b with ranges := b.ranges.take n }) :=
    (VRegKept.refl lists).same rfl rfl fun _ => ⟨rfl, rfl, rfl⟩
  have kept₁ : VRegKept s s₁ := by
    generalize whole : (s.bundles bundle).ranges.drop first = l at run
    cases l with
    | nil => cases run
    | cons r tail =>
      have rIn : r ∈ (s.bundles bundle).ranges :=
        List.drop_subset _ _ (whole ▸ List.mem_cons_self _ _)
      by_cases straddles : r.range.from < point
      · obtain ⟨v, vreg⟩ := Option.isSome_iff_exists.mp (ready.vregs r rIn)
        have lastIn : last < ((s.updateBundle bundle fun b =>
            { b with ranges := b.ranges.take n }).bundles bundle).ranges.length := by
          by_contra outside
          simp only [splitStraddle, if_pos straddles, recomputeRangeProperties] at run
          rw [if_neg (by simpa using outside)] at run
          cases run
        obtain ⟨s₁', cut, -, others, range₁, uses₁, vreg₁, -, newRange, newUses, newVreg,
          numRanges₁, -, -, vregs₁, -⟩ := @splitStraddle_spec (s.updateBundle bundle fun b =>
            { b with ranges := b.ranges.take n }) bundle last point r tail v straddles
            (ready.inArena r rIn) vreg lastIn
        obtain ⟨rfl, rfl⟩ := Prod.mk.inj (Except.ok.inj (run.symm.trans cut))
        have ends := nonempty _ (List.mem_cons_self _ _)
        have arena := ready.ready.arena r rIn
        refine keptA.cut (indexed r rIn v vreg) vregs₁ numRanges₁ others (vreg₁.trans vreg.symm)
          (.inr newVreg) ?_ ?_
        · simp only [rangePoints, range₁, newRange, CodeRange.len]
          simp only [Env.updateBundle_ranges, arena]
          exact List.Perm.of_eq (range'_cut (le_of_lt straddles) (le_of_lt ends))
        · simp only [rangeUses, uses₁, newUses]
          exact List.Perm.of_eq (List.take_append_drop _ _)
      · simp only [splitStraddle, if_neg straddles, Except.ok.injEq, Prod.mk.injEq] at run
        obtain ⟨rfl, -⟩ := run
        exact keptA
  have moved := (moveToNewBundle_spec s₁ spillset list).2
  exact kept₁.same (by rw [moved]) (by rw [moved]) fun i => by
    simp only [moved]; split <;> exact ⟨rfl, rfl, rfl⟩

theorem VRegKept.getOrCreate (kept : VRegKept origin s) {x sb : Nat}
    (found : getOrCreateSpillBundle s x true = (some sb, s')) : VRegKept origin s' := by
  obtain ⟨vregs, ranges, numRanges⟩ := getOrCreateSpillBundle_keeps s x true
  rw [found] at vregs ranges numRanges
  exact kept.same vregs numRanges fun i => by rw [ranges]; exact ⟨rfl, rfl, rfl⟩

theorem VRegKept.popped (kept : VRegKept origin s) {sb x i : Nat}
    {f g : LiveBundle → LiveBundle}
    (popped : s' = ((s.updateBundle sb f).updateBundle x g).updateRange i
      fun r => { r with bundle := sb }) : VRegKept origin s' := by
  subst popped
  exact kept.same rfl rfl fun j => by simp only [updateRange_owner]; exact ⟨rfl, rfl, rfl⟩

section Trims

theorem VRegKept.cutLast (kept : VRegKept origin s)
    (indexed : IndexedIn origin (origin.bundles bundle).ranges)
    (inArena : ∀ e ∈ (origin.bundles bundle).ranges, e.index < origin.numRanges)
    (inv : SplitInv origin s bundle newBundle spillset point added)
    (frame : SplitFrame origin s bundle newBundle spillset) {sb : Nat}
    {entry : LiveRangeListEntry} {u : Use} (spill : (s.spillsets spillset).spillBundle = some sb)
    (last : (s.bundles bundle).ranges.getLast? = some entry)
    (lastUse : (s.ranges entry.index).uses.getLast? = some u)
    (cuts : ProgPoint.before (ProgPoint.inst u.pos + 1) < entry.range.to)
    (cut : cutTail s bundle sb (ProgPoint.before (ProgPoint.inst u.pos + 1)) entry.range.to
      (s.ranges entry.index).vreg = .ok s') :
    VRegKept origin s' := by
  obtain ⟨init, whole⟩ := List.getLast?_eq_some_iff.mp last
  have entryIn := List.mem_of_getLast?_eq_some last
  have bound := inv.inArena entry (by simp [splitPieces, entryIn])
  obtain ⟨v, vreg⟩ :=
    Option.isSome_iff_exists.mp (inv.vregs entry (List.mem_append_left _ entryIn))
  rw [vreg] at cut
  obtain ⟨s'', run, -, ranges', numRanges', -, -, vregs', -⟩ :=
    cutTail_spec (ProgPoint.before (ProgPoint.inst u.pos + 1)) v whole
      (inv.spillApart sb spill).1 bound
  obtain rfl : s' = s'' := Except.ok.inj (cut.symm.trans run)
  have fresh : entry.index ≠ s.numRanges := Nat.ne_of_lt bound
  have arena := inv.kept.arena entry entryIn
  have inside := (inv.kept.usesInside entry entryIn).inside u (List.mem_of_getLast?_eq_some lastUse)
  rw [arena] at inside
  refine kept.cut (kept.listed indexed inArena (.inl (frame.keptFrom entry entryIn)) bound vreg)
    vregs' numRanges' (fun i ne₁ ne₂ => by simp [ranges', Function.update_apply, ne₁, ne₂])
    (by simp [ranges', fresh]) (.inl (by simp [ranges'])) ?_ ?_
  · simp only [rangePoints, ranges', Function.update_same, Function.update_noteq fresh,
      CodeRange.len, arena]
    refine List.Perm.of_eq (range'_cut ?_ (le_of_lt cuts))
    simp only [ProgPoint.before_eq, ProgPoint.inst_eq]; omega
  · simp [rangeUses, ranges', fresh]

theorem VRegKept.cutFirst (kept : VRegKept origin s)
    (indexed : IndexedIn origin (origin.bundles bundle).ranges)
    (inArena : ∀ e ∈ (origin.bundles bundle).ranges, e.index < origin.numRanges)
    (inv : SplitInv origin s bundle newBundle spillset point added)
    (frame : SplitFrame origin s bundle newBundle spillset) {sb : Nat}
    {entry : LiveRangeListEntry} {u : Use} (spill : (s.spillsets spillset).spillBundle = some sb)
    (first : (s.bundles newBundle).ranges.head? = some entry)
    (firstUse : (s.ranges entry.index).uses.head? = some u)
    (cuts : entry.range.from < ProgPoint.before (ProgPoint.inst u.pos))
    (cut : cutHead s newBundle sb (ProgPoint.before (ProgPoint.inst u.pos)) entry.range.from
      (s.ranges entry.index).vreg = .ok s') :
    VRegKept origin s' := by
  obtain ⟨rest, whole⟩ := List.head?_eq_some_iff.mp first
  have entryIn := List.mem_of_mem_head? first
  have bound := inv.inArena entry (by simp [splitPieces, entryIn])
  obtain ⟨v, vreg⟩ :=
    Option.isSome_iff_exists.mp (inv.vregs entry (List.mem_append_right _ entryIn))
  rw [vreg] at cut
  obtain ⟨s'', run, -, ranges', numRanges', -, -, vregs', -⟩ :=
    cutHead_spec (ProgPoint.before (ProgPoint.inst u.pos)) v whole
      (inv.spillApart sb spill).2.1 bound
  obtain rfl : s' = s'' := Except.ok.inj (cut.symm.trans run)
  have fresh : entry.index ≠ s.numRanges := Nat.ne_of_lt bound
  have arena := inv.moved.arena entry entryIn
  have inside := (inv.moved.usesInside entry entryIn).inside u (List.mem_of_mem_head? firstUse)
  rw [arena] at inside
  refine kept.cut (kept.listed indexed inArena (frame.movedFrom entry entryIn) bound vreg)
    vregs' numRanges' (fun i ne₁ ne₂ => by simp [ranges', Function.update_apply, ne₁, ne₂])
    (by simp [ranges', fresh]) (.inl (by simp [ranges'])) ?_ ?_
  · simp only [rangePoints, ranges', Function.update_same, Function.update_noteq fresh,
      CodeRange.len, arena]
    refine List.perm_append_comm.trans (List.Perm.of_eq (range'_cut (le_of_lt cuts) ?_))
    simp only [ProgPoint.before_eq, ProgPoint.inst_eq]; omega
  · simp [rangeUses, ranges', fresh]

theorem trimTail_vregs (indexed : IndexedIn origin (origin.bundles bundle).ranges)
    (inArena : ∀ e ∈ (origin.bundles bundle).ranges, e.index < origin.numRanges) :
    ∀ (fuel : Nat) (s : Env) (added : List LiveRangeListEntry),
    SplitInv origin s bundle newBundle spillset point added →
    SplitFrame origin s bundle newBundle spillset → VRegKept origin s →
    trimTail s bundle fuel = .ok s' → VRegKept origin s'
  | 0, _, _, _, _, _, run => by cases run
  | fuel + 1, s, added, inv, frame, kept, run => by
    cases last : (s.bundles bundle).ranges.getLast? with
    | none =>
      simp only [trimTail, last, Except.ok.injEq] at run
      exact run ▸ kept
    | some entry =>
      obtain ⟨sb, s₁, found, spill, inv₁, ranges₁, -, -, others₁⟩ := inv.getOrCreate (.inl rfl)
      have frame₁ := frame.getOrCreate inv (.inl rfl) found
      have kept₁ := kept.getOrCreate found
      have last₁ : (s₁.bundles bundle).ranges.getLast? = some entry := by
        rw [others₁ _ (Ne.symm (inv₁.spillApart sb spill).1), last]
      cases lastUse : (s.ranges entry.index).uses.getLast? with
      | none =>
        simp only [trimTail, last, lastUse, found] at run
        exact trimTail_vregs indexed inArena fuel _ _
          (inv₁.popLast spill last₁ (by rw [ranges₁]; simpa using lastUse) rfl)
          (frame₁.popLast inv₁ spill last₁ rfl) (kept₁.popped rfl) run
      | some u =>
        by_cases cuts : ProgPoint.before (ProgPoint.inst u.pos + 1) < entry.range.to
        · simp only [trimTail, last, lastUse, if_pos cuts, found] at run
          rw [← ranges₁] at run
          exact kept₁.cutLast indexed inArena inv₁ frame₁ spill last₁
            (by rw [ranges₁]; exact lastUse) cuts run
        · simp only [trimTail, last, lastUse, if_neg cuts, Except.ok.injEq] at run
          exact run ▸ kept

theorem trimHead_vregs (indexed : IndexedIn origin (origin.bundles bundle).ranges)
    (inArena : ∀ e ∈ (origin.bundles bundle).ranges, e.index < origin.numRanges) :
    ∀ (fuel : Nat) (s : Env) (added : List LiveRangeListEntry),
    SplitInv origin s bundle newBundle spillset point added →
    SplitFrame origin s bundle newBundle spillset → VRegKept origin s →
    trimHead s newBundle fuel = .ok s' → VRegKept origin s'
  | 0, _, _, _, _, _, run => by cases run
  | fuel + 1, s, added, inv, frame, kept, run => by
    cases first : (s.bundles newBundle).ranges.head? with
    | none =>
      simp only [trimHead, first, Except.ok.injEq] at run
      exact run ▸ kept
    | some entry =>
      by_cases atDef : (s.ranges entry.index).startsAtDef = true
      · simp only [trimHead, first, atDef, if_true, Except.ok.injEq] at run
        exact run ▸ kept
      obtain ⟨sb, s₁, found, spill, inv₁, ranges₁, -, -, others₁⟩ := inv.getOrCreate (.inr rfl)
      have frame₁ := frame.getOrCreate inv (.inr rfl) found
      have kept₁ := kept.getOrCreate found
      have first₁ : (s₁.bundles newBundle).ranges.head? = some entry := by
        rw [others₁ _ (Ne.symm (inv₁.spillApart sb spill).2.1), first]
      cases firstUse : (s.ranges entry.index).uses.head? with
      | none =>
        simp only [trimHead, first, atDef, firstUse, found] at run
        exact trimHead_vregs indexed inArena fuel _ _
          (inv₁.popFirst spill first₁ (by rw [ranges₁]; simpa using firstUse) rfl)
          (frame₁.popFirst inv₁ spill first₁ rfl) (kept₁.popped rfl) run
      | some u =>
        by_cases cuts : entry.range.from < ProgPoint.before (ProgPoint.inst u.pos)
        · simp only [trimHead, first, atDef, firstUse, if_pos cuts, found] at run
          rw [← ranges₁] at run
          exact kept₁.cutFirst indexed inArena inv₁ frame₁ spill first₁
            (by rw [ranges₁]; exact firstUse) cuts run
        · simp only [trimHead, first, atDef, firstUse, if_neg cuts] at run
          simp only [Bool.false_eq_true, if_false, Except.ok.injEq] at run
          exact run ▸ kept

end Trims

theorem VRegKept.requeue (kept : VRegKept origin s) {ctx : Ctx} {x regHint : Nat}
    (run : requeueIfNonempty ctx s x regHint = .ok s') : VRegKept origin s' := by
  obtain ⟨s'', b, run', requeued, -⟩ := requeueIfNonempty_spec ctx s x regHint
  rw [Except.ok.inj (run.symm.trans run'), requeued]
  exact kept.same rfl rfl fun _ => ⟨rfl, rfl, rfl⟩

/-- A split of a well-formed, non-minimal bundle at a point inside it keeps what the VReg lists
hold, when they list every live range of the bundle, and loses no live range. -/
theorem splitAndRequeueBundle_vregs {ctx : Ctx} {splitAt regHint : Nat}
    {first last : LiveRangeListEntry} (ready : SplitReady s bundle)
    (spillOf : ∀ sb, (s.spillsets (s.bundles bundle).spillset).spillBundle = some sb →
      (s.bundles sb).spillset = (s.bundles bundle).spillset)
    (firstEntry : (s.bundles bundle).ranges.head? = some first)
    (lastEntry : (s.bundles bundle).ranges.getLast? = some last)
    (notMinimal : spansOneInst first.range.from last.range.to = false)
    (start_le : first.range.from ≤ splitAt) (lt_end : splitAt < last.range.to)
    (lists : VRegLists s) (indexed : IndexedIn s (s.bundles bundle).ranges) :
    ∃ s', splitAndRequeueBundle ctx s bundle splitAt regHint = .ok s' ∧ VRegKept s s' ∧
      HeldKept s s' := by
  obtain ⟨rest, ranges⟩ := List.head?_eq_some_iff.mp firstEntry
  have lastEq : (first :: rest).getLast (List.cons_ne_nil _ _) = last := by
    rw [ranges, List.getLast?_eq_getLast _ (List.cons_ne_nil _ _)] at lastEntry
    exact Option.some.inj lastEntry
  have firstUse : ∀ pos ∈ firstUseInBundle s (s.bundles bundle).ranges,
      first.range.from ≤ pos ∧ pos < last.range.to := by
    rw [ranges, ← lastEq]; exact firstUseInBundle_inside (ranges ▸ ready.ready)
  obtain ⟨-, after_start, before_end⟩ :=
    normalizeSplitAt_inside notMinimal firstUse start_le lt_end
  obtain ⟨s₁, list, straddle, numBundles₁, inv₁⟩ :=
    SplitInv.start ready firstEntry lastEntry after_start before_end
  have moved : ∀ e ∈ list, e.range.from < e.range.to := fun e member =>
    inv₁.moved.sorted.nonempty e (by
      simp only [(moveToNewBundle_spec s₁ _ list).2, numBundles₁, Function.update_same]
      exact member)
  have kept₁ : VRegKept s (moveToNewBundle s₁ (s.bundles bundle).spillset list).2 :=
    VRegKept.start ready lists indexed straddle moved
  have frame₁ := SplitFrame.start straddle spillOf ready.bundle_lt
  obtain ⟨reaches, straddled⟩ :=
    splitIndices_cover ready firstEntry lastEntry after_start before_end
  have held₁ : HeldKept s (moveToNewBundle s₁ (s.bundles bundle).spillset list).2 :=
    HeldKept.start straddle reaches straddled
  obtain ⟨s₂, more₂, trimmedTail, inv₂, -⟩ := trimTail_spec _ _ [] inv₁ (Nat.lt_succ_self _)
  have kept₂ := trimTail_vregs indexed ready.inArena _ _ _ inv₁ frame₁ kept₁ trimmedTail
  have frame₂ := trimTail_frame _ _ _ inv₁ frame₁ trimmedTail
  obtain ⟨s₃, more₃, trimmedHead, -⟩ := trimHead_spec _ _ _ inv₂ (Nat.lt_succ_self _)
  have kept₃ := trimHead_vregs indexed ready.inArena _ _ _ inv₂ frame₂ kept₂ trimmedHead
  have held₃ := (held₁.trans (trimTail_held _ _ _ inv₁ trimmedTail)).trans
    (trimHead_held _ _ _ inv₂ trimmedHead)
  obtain ⟨s₄, -, requeued₄, -⟩ := requeueIfNonempty_spec ctx s₃ bundle regHint
  obtain ⟨s₅, -, requeued₅, -⟩ := requeueIfNonempty_spec ctx s₄ s.numBundles regHint
  refine ⟨s₅, ?_, (kept₃.requeue requeued₄).requeue requeued₅,
    (held₃.trans (HeldKept.requeue requeued₄)).trans (HeldKept.requeue requeued₅)⟩
  simp only [splitAndRequeueBundle, firstEntry, lastEntry]
  generalize found : splitIndices _ _ 0 (0, 0) = idx at straddle ⊢
  obtain ⟨lastIdx, firstIdx⟩ := idx
  simp only [bind, Except.bind, straddle, (moveToNewBundle_spec s₁ _ list).1, numBundles₁,
    trimmedTail, trimmedHead, requeued₄, requeued₅]

end Steps

@[simp] theorem evictBundle_vregs (ctx : Ctx) (s : Env) (x : Nat) :
    (evictBundle ctx s x).vregs = s.vregs := by
  unfold evictBundle; split <;> rfl

@[simp] theorem evictAll_vregs (ctx : Ctx) :
    ∀ (bundles : List Nat) (s : Env), (evictAll ctx s bundles).vregs = s.vregs
  | [], _ => rfl
  | x :: rest, s => (evictAll_vregs ctx rest _).trans (evictBundle_vregs ctx s x)

section Run

variable {ctx : Ctx} {s s' s'' : Env} {b : Nat}

theorem VRegKept.trans (first : VRegKept s s') (second : VRegKept s' s'') : VRegKept s s'' where
  lists := second.lists
  points v := (second.points v).trans (first.points v)
  uses v := (second.uses v).trans (first.uses v)
  grown v := (first.grown v).trans (second.grown v)
  appended v lr member := by
    rcases second.appended v lr member with old | fresh
    · exact first.appended v lr old
    · exact .inr (first.numRanges.trans fresh)
  vreg lr bound :=
    (second.vreg lr (lt_of_lt_of_le bound first.numRanges)).trans (first.vreg lr bound)
  numRanges := first.numRanges.trans second.numRanges
  fresh lr lower upper v isV := by
    by_cases older : lr < s'.numRanges
    · exact (second.grown v).subset (first.fresh lr lower older v (second.vreg lr older ▸ isV))
    · exact second.fresh lr (Nat.le_of_not_lt older) upper v isV

theorem VRegKept.indexedIn {l : List LiveRangeListEntry} (kept : VRegKept s s')
    (indexed : IndexedIn s l) (inArena : ∀ e ∈ l, e.index < s.numRanges) : IndexedIn s' l :=
  fun e member v isV =>
    (kept.grown v).subset (indexed e member v (kept.vreg _ (inArena e member) ▸ isV))

theorem VRegIndexed.shape (index : VRegIndexed s) (shape : SameShape s s')
    (vregs : s'.vregs = s.vregs) : VRegIndexed s' ∧ VRegKept s s' ∧ HeldKept s s' := by
  have kept : VRegKept s s' := (VRegKept.refl index.lists).same vregs shape.numRanges
    fun i => by rw [shape.ranges]; exact ⟨rfl, rfl, rfl⟩
  refine ⟨⟨kept.lists, fun x allocatable e member v isV => ?_⟩, kept, HeldKept.shape shape⟩
  rw [(shape.bundles x).1] at member
  rw [shape.ranges] at isV
  rw [listedRanges, vregs]
  exact index.indexed x ((shape.allocatable x).mp allocatable) e member v isV

theorem VRegIndexed.withQueue (index : VRegIndexed s) (queue : List PrioQueueEntry) :
    VRegIndexed { s with allocationQueue := queue } ∧
      VRegKept s { s with allocationQueue := queue } ∧
      HeldKept s { s with allocationQueue := queue } :=
  index.shape ⟨rfl, rfl, rfl, fun _ => rfl, fun _ => ⟨rfl, rfl, rfl⟩⟩ rfl

theorem VRegIndexed.moveToSpill (index : VRegIndexed s) (inv : AllocInv s) (pending : Pending s b)
    {spill : Nat} (found : (s.spillsets (s.bundles b).spillset).spillBundle = some spill) :
    VRegIndexed (moveToSpillBundle s b spill) ∧ VRegKept s (moveToSpillBundle s b spill) ∧
      HeldKept s (moveToSpillBundle s b spill) := by
  have apart : spill ≠ b := fun same => pending.allocatable.2 (same ▸ found)
  obtain ⟨-, -, numBundles, numRanges, spillsets, -⟩ := moveToSpillBundle_frame s b spill
  have kept : VRegKept s (moveToSpillBundle s b spill) :=
    (VRegKept.refl index.lists).same (by rw [moveToSpillBundle_eq apart]) numRanges fun i => by
      rw [moveToSpillBundle_ranges apart]; split <;> exact ⟨rfl, rfl, rfl⟩
  have spillset : ∀ y, ((moveToSpillBundle s b spill).bundles y).spillset =
      (s.bundles y).spillset := fun y => by
    rw [moveToSpillBundle_bundles apart]
    split_ifs with atSpill atB
    · rw [atSpill]
    · rw [atB]
    · rfl
  refine ⟨⟨kept.lists, fun x allocatable' e member => ?_⟩, kept,
    HeldKept.moveToSpill inv pending found⟩
  have allocatable : Allocatable s x := by
    unfold Allocatable at allocatable' ⊢
    rwa [numBundles, spillset, spillsets] at allocatable'
  have notSpill : x ≠ spill := by
    rintro rfl
    exact allocatable.2 (by rw [(inv.spillOf _ x found).2]; exact found)
  rw [moveToSpillBundle_bundles apart, if_neg notSpill] at member
  split_ifs at member
  · cases member
  · exact kept.indexedIn (index.indexed x allocatable)
      (fun e member => (inv.owner x allocatable.1 e member).2) e member

/-- Splitting a pending, non-minimal bundle at a point inside it keeps the index: the halves'
live ranges were the bundle's or were created by the split, and every other allocatable bundle
is as it was. -/
theorem VRegIndexed.split (index : VRegIndexed s) (inv : AllocInv s) (pending : Pending s b)
    {splitAt regHint : Nat} (nonMinimal : minimalBundle s b = false)
    (inside : InsideBundle s b splitAt)
    (split : splitAndRequeueBundle ctx s b splitAt regHint = .ok s') :
    VRegIndexed s' ∧ VRegKept s s' ∧ HeldKept s s' := by
  obtain ⟨first, head⟩ := Option.ne_none_iff_exists'.mp
    (mt List.head?_eq_none_iff.mp pending.nonempty)
  obtain ⟨last, tail⟩ := Option.ne_none_iff_exists'.mp
    (mt List.getLast?_eq_none_iff.mp pending.nonempty)
  obtain ⟨start_le, lt_end⟩ := inside first last head tail
  have ready := inv.splitReady pending
  have spillOf := fun sb found => ((inv.spillOf (s.bundles b).spillset) sb found).2
  have indexed := index.indexed b pending.allocatable
  obtain ⟨s'', run, kept, held⟩ := splitAndRequeueBundle_vregs ready spillOf head tail
    (inv.flags b pending.allocatable first last head tail ▸ nonMinimal) start_le lt_end
    index.lists indexed
  obtain rfl := Except.ok.inj (split.symm.trans run)
  obtain ⟨s₃, point, added, -, -, frame, -⟩ := inv.splitFrame pending nonMinimal inside split
  have inv' := inv.split pending nonMinimal inside split
  refine ⟨⟨kept.lists, fun x allocatable' e member v isV => ?_⟩, kept, held⟩
  have bound := (inv'.owner x allocatable'.1 e member).2
  by_cases halfKept : x = b
  · subst halfKept
    exact kept.listed indexed ready.inArena (.inl (frame.keptFrom e member)) bound isV
  by_cases halfMoved : x = s.numBundles
  · subst halfMoved
    exact kept.listed indexed ready.inArena (frame.movedFrom e member) bound isV
  have allocatable := (frame.allocatable_iff spillOf halfKept halfMoved).mp allocatable'
  rw [frame.bundles_of_allocatable spillOf allocatable halfKept] at member
  exact kept.indexedIn (index.indexed x allocatable)
    (fun e member => (inv.owner x allocatable.1 e member).2) e member v isV

theorem VRegIndexed.probeDone (index : VRegIndexed s) (inv : AllocInv s) (pending : Pending s b)
    (done : ProbeDone ctx s b s') : VRegIndexed s' ∧ VRegKept s s' ∧ HeldKept s s' := by
  cases done with
  | split nonMinimal inside split => exact index.split inv pending nonMinimal inside split
  | allocated =>
    exact index.shape ((sameShape_assignBundle s b _).trans (sameShape_updateSpillSet rfl)) rfl

/-- Every outcome of `process_bundle` keeps the index and what the VReg lists hold, and loses
no live range. -/
theorem VRegIndexed.processed (index : VRegIndexed s) (inv : AllocInv s) (pending : Pending s b)
    (processed : Processed ctx s b s') : VRegIndexed s' ∧ VRegKept s s' ∧ HeldKept s s' := by
  cases processed with
  | attempt done =>
    cases done with
    | probed done => exact index.probeDone inv pending done
    | required => exact index.shape (sameShape_updateSpillSet rfl) rfl
    | spilled => exact index.shape ⟨rfl, rfl, rfl, fun _ => rfl, fun _ => ⟨rfl, rfl, rfl⟩⟩ rfl
  | @retry bundles _ _ _ done =>
    obtain ⟨inv', pending'⟩ := evictAll_inv bundles s inv pending
    obtain ⟨index', kept', held'⟩ :=
      index.shape (sameShape_evictAll ctx bundles s) (evictAll_vregs ctx bundles s)
    obtain ⟨index'', kept'', held''⟩ := index'.probeDone inv' pending' done
    exact ⟨index'', kept'.trans kept'', held'.trans held''⟩
  | moveToSpill found => exact index.moveToSpill inv pending found

theorem VRegIndexed.step (cfg : CfgWellFormed ctx) (contract : ConflictsInside ctx)
    (inv : AllocInv s) (index : VRegIndexed s) (step : Step ctx s s') :
    VRegIndexed s' ∧ VRegKept s s' ∧ HeldKept s s' := by
  obtain ⟨queued, processed⟩ := step
  obtain ⟨inv₀, pending⟩ := inv.dequeue queued
  have done := (index.withQueue _).1.processed inv₀ pending (inv₀.outcome cfg contract
    pending processed)
  exact ⟨done.1, (index.withQueue _).2.1.trans done.2.1, (index.withQueue _).2.2.trans done.2.2⟩

theorem VRegIndexed.reachable (cfg : CfgWellFormed ctx) (contract : ConflictsInside ctx)
    (inv : AllocInv s) (index : VRegIndexed s) (reach : Reachable ctx s s') :
    VRegIndexed s' ∧ VRegKept s s' ∧ HeldKept s s' := by
  induction reach with
  | refl => exact ⟨index, VRegKept.refl index.lists, HeldKept.refl s⟩
  | tail reached step kept =>
    have next := kept.1.step cfg contract (inv.reachable cfg contract reached) step
    exact ⟨next.1, kept.2.1.trans next.2.1, kept.2.2.trans next.2.2⟩

end Run

section Results

variable {ctx : Ctx} {s s' : Env}

/-- In every state a run of `process_bundles` reaches from one satisfying the run invariant whose
VReg lists list every live range of an allocatable bundle, whatever entry each step takes from
the queue, the lists still do, every VReg's list has only grown at its end, and its live ranges
cover the same program points and carry the same uses as at the start: a split or a trim appends
the live range it creates to the list of the VReg whose live range it cut. -/
theorem reachable_vregs_conserved (cfg : CfgWellFormed ctx) (contract : ConflictsInside ctx)
    (inv : AllocInv s) (index : VRegIndexed s) (reach : Reachable ctx s s') :
    VRegIndexed s' ∧ ∀ v, listedRanges s v <+: listedRanges s' v ∧
      vregPoints s' v = vregPoints s v ∧ vregUses s' v = vregUses s v := by
  obtain ⟨index', kept, -⟩ := index.reachable cfg contract inv reach
  exact ⟨index', fun v => ⟨kept.grown v, Multiset.coe_eq_coe.mpr (kept.points v),
    Multiset.coe_eq_coe.mpr (kept.uses v)⟩⟩

theorem mem_listed_conflictExample {v lr : Nat} :
    lr ∈ listedRanges conflictExample v ↔ v < 2 ∧ lr = v := by
  match v with
  | 0 | 1 => simp [listedRanges, conflictExample]
  | _ + 2 => show lr ∈ ([] : List Nat) ↔ _; simp

theorem conflictExample_indexed : VRegIndexed conflictExample where
  lists :=
    { nodup := fun v => by
        match v with
        | 0 | 1 => decide
        | _ + 2 => exact List.nodup_nil
      inArena := fun _ _ member => by
        obtain ⟨small, rfl⟩ := mem_listed_conflictExample.mp member
        exact small
      exclusive := fun _ _ _ inV inW =>
        (mem_listed_conflictExample.mp inV).2.symm.trans (mem_listed_conflictExample.mp inW).2 }
  indexed x allocatable e member v isV := by
    obtain rfl | rfl : x = 0 ∨ x = 1 := by have : x < 2 := allocatable.1; omega
    all_goals
      simp only [conflictExample, List.mem_singleton] at member
      subst member
      simp only [conflictExample, Option.some.injEq] at isV
      exact mem_listed_conflictExample.mpr ⟨by omega, isV⟩

theorem conflictExample_vregs_conserved :
    CfgWellFormed fixedCtx ∧ ConflictsInside fixedCtx ∧ AllocInv conflictExample ∧
      VRegIndexed conflictExample ∧ Reachable fixedCtx conflictExample conflictExampleDone ∧
      VRegIndexed conflictExampleDone ∧
      ∀ v, listedRanges conflictExample v <+: listedRanges conflictExampleDone v ∧
        vregPoints conflictExampleDone v = vregPoints conflictExample v ∧
        vregUses conflictExampleDone v = vregUses conflictExample v :=
  ⟨fixedCtx_cfgWellFormed, fixedCtx_conflictsInside, conflictExample_allocInv,
    conflictExample_indexed, conflictExample_reaches, reachable_vregs_conserved
      fixedCtx_cfgWellFormed fixedCtx_conflictsInside conflictExample_allocInv
      conflictExample_indexed conflictExample_reaches⟩

end Results

end IonRegalloc
