import IonRegalloc.Proof.Split

/-! What `split_and_requeue_bundle` leaves alone: every bundle but the two halves and the spill
bundle, and every live range the split bundle did not hold. -/

namespace IonRegalloc

theorem map_modify {α β : Type} (g : α → β) (f : α → α) (same : ∀ a, g (f a) = g a) :
    ∀ (l : List α) (n : Nat), (l.modify f n).map g = l.map g
  | [], _ => by simp
  | a :: l, 0 => by simp [same]
  | a :: l, n + 1 => by simp [map_modify g f same l n]

/-- The frame of a split of `bundle` of `origin` into `newBundle`, between its steps. -/
structure SplitFrame (origin s : Env) (bundle newBundle spillset : Nat) : Prop where
  spilled : origin.spilledBundles <+: s.spilledBundles
  numRanges : origin.numRanges ≤ s.numRanges
  numBundles : origin.numBundles ≤ s.numBundles
  ranges : ∀ lr < origin.numRanges, lr ∉ (origin.bundles bundle).ranges.map (·.index) →
    s.ranges lr = origin.ranges lr
  keptFrom : ∀ e ∈ (s.bundles bundle).ranges,
    e.index ∈ (origin.bundles bundle).ranges.map (·.index)
  movedFrom : ∀ e ∈ (s.bundles newBundle).ranges,
    e.index ∈ (origin.bundles bundle).ranges.map (·.index) ∨ origin.numRanges ≤ e.index
  bundles : ∀ x, x ≠ bundle → x ≠ newBundle → (s.spillsets spillset).spillBundle ≠ some x →
    s.bundles x = origin.bundles x
  allocation : ∀ x, (s.bundles x).allocation = (origin.bundles x).allocation ∨
    (s.bundles x).allocation = .none
  spillsets : s.spillsets = origin.spillsets ∨ ((origin.spillsets spillset).spillBundle = none ∧
    ∃ sb, origin.numBundles ≤ sb ∧ s.spillsets = Function.update origin.spillsets spillset
      { origin.spillsets spillset with spillBundle := some sb })
  spillsetOf : ∀ sb, (s.spillsets spillset).spillBundle = some sb →
    (s.bundles sb).spillset = spillset
  created : ∀ x, origin.numBundles ≤ x → x < s.numBundles →
    x = newBundle ∨ (s.spillsets spillset).spillBundle = some x
  fresh : ∀ x, origin.numBundles ≤ x → x < s.numBundles → (s.bundles x).allocation = .none
  listed : ∀ sb, (s.spillsets spillset).spillBundle = some sb →
    (origin.spillsets spillset).spillBundle = some sb ∨ sb ∈ s.spilledBundles

/-- What `splitStraddle` changes: the bundle's list keeps its live ranges, only the straddling
range and a fresh one change, and the new list holds the old list's ranges or the fresh one. -/
theorem splitStraddle_frame {s s₁ : Env} {bundle last point : Nat}
    {l list : List LiveRangeListEntry} (run : splitStraddle s bundle last point l = .ok (s₁, list)) :
    (∀ x, x ≠ bundle → s₁.bundles x = s.bundles x) ∧
      (s₁.bundles bundle).ranges.map (·.index) = (s.bundles bundle).ranges.map (·.index) ∧
      (s₁.bundles bundle).allocation = (s.bundles bundle).allocation ∧
      (s₁.bundles bundle).spillset = (s.bundles bundle).spillset ∧
      (∀ lr < s.numRanges, lr ∉ l.map (·.index) → s₁.ranges lr = s.ranges lr) ∧
      (∀ e ∈ list, e.index ∈ l.map (·.index) ∨ s.numRanges ≤ e.index) ∧
      s.numRanges ≤ s₁.numRanges ∧ s₁.numBundles = s.numBundles ∧ s₁.spillsets = s.spillsets ∧
      s₁.spilledBundles = s.spilledBundles := by
  cases l with
  | nil => cases run
  | cons head tail =>
    simp only [splitStraddle, recomputeRangeProperties] at run
    split at run
    · split at run
      · split at run
        · cases run
        · simp only [Except.ok.injEq, Prod.mk.injEq] at run
          obtain ⟨rfl, rfl⟩ := run
          refine ⟨fun x ne => by simp [ne], ?_, by simp, by simp, fun lr bound outside => ?_,
            fun e member => ?_, by simp, by simp, by simp, by simp⟩
          · simp only [Env.updateVReg_bundles, Env.updateBundle_bundles, if_true]
            refine map_modify (fun e : LiveRangeListEntry => e.index) _ ?_ _ _
            exact fun _ => rfl
          · have : lr ≠ head.index := fun same => outside (by simp [same])
            simp [this, Nat.ne_of_lt bound]
          · rcases List.mem_cons.mp member with rfl | inTail
            · exact .inr (by simp)
            · exact .inl (List.mem_map_of_mem _ (List.mem_cons_of_mem _ inTail))
      · cases run
    · simp only [Except.ok.injEq, Prod.mk.injEq] at run
      obtain ⟨rfl, rfl⟩ := run
      exact ⟨fun _ _ => rfl, rfl, rfl, rfl, fun _ _ _ => rfl, fun e member => .inl
        (List.mem_map_of_mem _ member), le_rfl, rfl, rfl, rfl⟩

namespace SplitFrame

theorem start {s s₁ : Env} {bundle n last first point : Nat} {list : List LiveRangeListEntry}
    (run : splitStraddle (s.updateBundle bundle fun b => { b with ranges := b.ranges.take n })
      bundle last point ((s.bundles bundle).ranges.drop first) = .ok (s₁, list))
    (spillOf : ∀ sb, (s.spillsets (s.bundles bundle).spillset).spillBundle = some sb →
      (s.bundles sb).spillset = (s.bundles bundle).spillset)
    (bundle_lt : bundle < s.numBundles) :
    SplitFrame s (moveToNewBundle s₁ (s.bundles bundle).spillset list).2 bundle s.numBundles
      (s.bundles bundle).spillset := by
  obtain ⟨others, keptIdx, keptAlloc, keptSpillset, sameRanges, listFrom, moreRanges, sameCount,
    sameSpillsets, sameSpilled⟩ := splitStraddle_frame run
  simp only [Env.updateBundle_bundles, if_true, Env.updateBundle_numBundles,
    Env.updateBundle_spillsets, Env.updateBundle_numRanges, Env.updateBundle_ranges,
    Env.updateBundle_spilledBundles] at *
  have fromDrop : ∀ e ∈ list, e.index ∈ (s.bundles bundle).ranges.map (·.index) ∨
      s.numRanges ≤ e.index := fun e member =>
    (listFrom e member).imp_left fun inDrop =>
      (List.map_subset _ (List.drop_subset _ _)) inDrop
  rw [(moveToNewBundle_spec s₁ _ list).2, sameCount]
  have apart : bundle ≠ s.numBundles := Nat.ne_of_lt bundle_lt
  refine ⟨by simp [sameSpilled], by simpa using moreRanges, by simp,
    fun lr bound outside => ?_, fun e member => ?_, fun e member => ?_, fun x ne₁ ne₂ _ => ?_,
    fun x => ?_, .inl (by simp [sameSpillsets]), fun sb found => ?_, fun x lower upper => ?_,
    fun x lower upper => ?_, fun sb found => .inl (by simpa [sameSpillsets] using found)⟩
  · have notMoved : lr ∉ list.map (·.index) := fun moved => by
      obtain ⟨e, member, rfl⟩ := List.mem_map.mp moved
      rcases fromDrop e member with inOld | fresh
      · exact outside inOld
      · omega
    simp [notMoved, sameRanges lr bound fun inDrop =>
      outside ((List.map_subset _ (List.drop_subset _ _)) inDrop)]
  · simp only [Function.update_apply, apart, if_false] at member
    have : e.index ∈ (s₁.bundles bundle).ranges.map (·.index) := List.mem_map_of_mem _ member
    rw [keptIdx] at this
    exact (List.map_subset _ (List.take_subset _ _)) this
  · simp only [Function.update_same] at member
    exact fromDrop e member
  · simp [Function.update_apply, ne₂, others x ne₁, ne₁]
  · by_cases here : x = s.numBundles
    · subst here; simp
    · by_cases there : x = bundle
      · subst there; simp [here, keptAlloc, sameCount]
      · simp [here, others x there, there, sameCount]
  · simp only [sameSpillsets] at found
    by_cases here : sb = s.numBundles
    · subst here; simp
    · by_cases there : sb = bundle
      · subst there; simp [here, keptSpillset, sameCount]
      · simp [here, others sb there, there, spillOf sb found, sameCount]
  · exact .inl (by simp at upper; omega)
  · obtain rfl : x = s.numBundles := by simp at upper; omega
    simp

section Steps

variable {origin s s' : Env} {bundle newBundle spillset point : Nat}
  {added : List LiveRangeListEntry}

theorem getOrCreate (frame : SplitFrame origin s bundle newBundle spillset)
    (inv : SplitInv origin s bundle newBundle spillset point added) {x sb : Nat}
    (which : x = bundle ∨ x = newBundle) (found : getOrCreateSpillBundle s x true = (some sb, s')) :
    SplitFrame origin s' bundle newBundle spillset := by
  have ofX : (s.bundles x).spillset = spillset := by
    rcases which with rfl | rfl
    exacts [inv.spillsets.1, inv.spillsets.2]
  cases present : (s.spillsets spillset).spillBundle with
  | some sb₀ =>
    rw [getOrCreateSpillBundle_of_some (ofX ▸ present)] at found
    simp only [Prod.mk.injEq, Option.some.injEq] at found
    obtain ⟨rfl, rfl⟩ := found
    exact frame
  | none =>
    rw [getOrCreateSpillBundle_of_none (ofX ▸ present)] at found
    simp only [Prod.mk.injEq, Option.some.injEq, ofX] at found
    obtain ⟨rfl, rfl⟩ := found
    have kept : bundle ≠ s.numBundles := Nat.ne_of_lt inv.apart.2.1
    have moved : newBundle ≠ s.numBundles := Nat.ne_of_lt inv.apart.2.2
    have untouched : s.spillsets = origin.spillsets := by
      rcases frame.spillsets with same | ⟨-, sb₀, -, updated⟩
      · exact same
      · simp [updated] at present
    refine ⟨frame.spilled.trans (List.prefix_append _ _), frame.numRanges,
      le_trans frame.numBundles (Nat.le_succ _), frame.ranges, ?_, ?_, fun y ne₁ ne₂ ne₃ => ?_,
      fun y => ?_, .inr ⟨by rwa [← untouched], s.numBundles, frame.numBundles, ?_⟩,
      fun sb found => ?_, fun y lower upper => ?_, fun y lower upper => ?_,
      fun sb found => .inr ?_⟩
    · simpa [Function.update_apply, kept] using frame.keptFrom
    · simpa [Function.update_apply, moved] using frame.movedFrom
    · have fresh : y ≠ s.numBundles := fun same => ne₃ (by simp [same])
      simpa [Function.update_apply, fresh] using frame.bundles y ne₁ ne₂ (by simp [present])
    · by_cases fresh : y = s.numBundles
      · subst fresh; simp
      · simpa [Function.update_apply, fresh] using frame.allocation y
    · rw [untouched]
    · simp only [Function.update_same, Option.some.injEq] at found
      subst found; simp
    · by_cases here : y = s.numBundles
      · exact .inr (by simp [here])
      · exact .inl ((frame.created y lower (by simp at upper; omega)).resolve_right
          (by simp [present]))
    · by_cases here : y = s.numBundles
      · subst here; simp
      · simpa [Function.update_apply, here] using frame.fresh y lower (by simp at upper; omega)
    · simp only [Function.update_same, Option.some.injEq] at found
      simp [found]

theorem transfer (frame : SplitFrame origin s bundle newBundle spillset) {sb : Nat}
    (spill : (s.spillsets spillset).spillBundle = some sb)
    (spilled : s'.spilledBundles = s.spilledBundles) (numRanges : s.numRanges ≤ s'.numRanges)
    (numBundles : s'.numBundles = s.numBundles)
    (ranges : ∀ lr < s.numRanges, (∀ e ∈ (s.bundles bundle).ranges ++ (s.bundles newBundle).ranges,
      e.index ≠ lr) → s'.ranges lr = s.ranges lr)
    (kept : ∀ e ∈ (s'.bundles bundle).ranges, ∃ e' ∈ (s.bundles bundle).ranges, e'.index = e.index)
    (moved : ∀ e ∈ (s'.bundles newBundle).ranges,
      (∃ e' ∈ (s.bundles newBundle).ranges, e'.index = e.index) ∨ s.numRanges ≤ e.index)
    (others : ∀ y, y ≠ bundle → y ≠ newBundle → y ≠ sb → s'.bundles y = s.bundles y)
    (fields : ∀ y, (s'.bundles y).allocation = (s.bundles y).allocation ∧
      (s'.bundles y).spillset = (s.bundles y).spillset)
    (spillsets : s'.spillsets = s.spillsets) :
    SplitFrame origin s' bundle newBundle spillset where
  spilled := spilled ▸ frame.spilled
  numRanges := le_trans frame.numRanges numRanges
  numBundles := numBundles ▸ frame.numBundles
  ranges lr bound outside := by
    refine (ranges lr (lt_of_lt_of_le bound frame.numRanges) fun e member same => ?_).trans
      (frame.ranges lr bound outside)
    rcases List.mem_append.mp member with inKept | inMoved
    · exact outside (same ▸ frame.keptFrom e inKept)
    · rcases frame.movedFrom e inMoved with inOld | fresh
      · exact outside (same ▸ inOld)
      · omega
  keptFrom e member := by
    obtain ⟨e', member', same⟩ := kept e member
    exact same ▸ frame.keptFrom e' member'
  movedFrom e member := by
    rcases moved e member with ⟨e', member', same⟩ | fresh
    · exact same ▸ frame.movedFrom e' member'
    · exact .inr (le_trans frame.numRanges fresh)
  bundles y ne₁ ne₂ ne₃ := by
    rw [spillsets] at ne₃
    exact (others y ne₁ ne₂ fun same => ne₃ (same ▸ spill)).trans (frame.bundles y ne₁ ne₂ ne₃)
  allocation y := (fields y).1 ▸ frame.allocation y
  spillsets := spillsets ▸ frame.spillsets
  spillsetOf sb' found := (fields sb').2.trans (frame.spillsetOf sb' (spillsets ▸ found))
  created y lower upper := spillsets ▸ frame.created y lower (numBundles ▸ upper)
  fresh y lower upper := (fields y).1 ▸ frame.fresh y lower (numBundles ▸ upper)
  listed sb found := spilled ▸ frame.listed sb (spillsets ▸ found)

theorem popLast (frame : SplitFrame origin s bundle newBundle spillset)
    (inv : SplitInv origin s bundle newBundle spillset point added) {sb : Nat}
    {entry : LiveRangeListEntry} (spill : (s.spillsets spillset).spillBundle = some sb)
    (last : (s.bundles bundle).ranges.getLast? = some entry)
    (popped : s' = ((s.updateBundle sb fun b => { b with ranges := b.ranges ++ [entry] }).updateBundle
      bundle fun b => { b with ranges := b.ranges.dropLast }).updateRange entry.index
        fun r => { r with bundle := sb }) :
    SplitFrame origin s' bundle newBundle spillset := by
  obtain ⟨sbBundle, sbNew, -⟩ := inv.spillApart sb spill
  have entryIn := List.mem_of_getLast?_eq_some last
  subst popped
  refine frame.transfer spill rfl le_rfl rfl (fun lr _ apart => ?_) (fun e member => ?_)
    (fun e member => ?_) (fun y ne₁ _ ne₃ => by simp [ne₁, ne₃]) (fun y => ?_) rfl
  · have := apart entry (List.mem_append_left _ entryIn)
    simp [Ne.symm this]
  · simp only [Env.updateRange_bundles, Env.updateBundle_bundles, if_true, Ne.symm sbBundle,
      if_false] at member
    exact ⟨e, List.dropLast_subset _ member, rfl⟩
  · simp only [Env.updateRange_bundles, Env.updateBundle_bundles, Ne.symm inv.apart.1,
      Ne.symm sbNew, if_false] at member
    exact .inl ⟨e, member, rfl⟩
  · simp only [Env.updateRange_bundles, Env.updateBundle_bundles]
    split_ifs <;> subst_vars <;> exact ⟨rfl, rfl⟩

theorem popFirst (frame : SplitFrame origin s bundle newBundle spillset)
    (inv : SplitInv origin s bundle newBundle spillset point added) {sb : Nat}
    {entry : LiveRangeListEntry} (spill : (s.spillsets spillset).spillBundle = some sb)
    (first : (s.bundles newBundle).ranges.head? = some entry)
    (popped : s' = ((s.updateBundle sb fun b => { b with ranges := b.ranges ++ [entry] }).updateBundle
      newBundle fun b => { b with ranges := b.ranges.drop 1 }).updateRange entry.index
        fun r => { r with bundle := sb }) :
    SplitFrame origin s' bundle newBundle spillset := by
  obtain ⟨sbBundle, sbNew, -⟩ := inv.spillApart sb spill
  have entryIn := List.mem_of_mem_head? first
  subst popped
  refine frame.transfer spill rfl le_rfl rfl (fun lr _ apart => ?_) (fun e member => ?_)
    (fun e member => ?_) (fun y _ ne₂ ne₃ => by simp [ne₂, ne₃]) (fun y => ?_) rfl
  · have := apart entry (List.mem_append_right _ entryIn)
    simp [Ne.symm this]
  · simp only [Env.updateRange_bundles, Env.updateBundle_bundles, inv.apart.1,
      Ne.symm sbBundle, if_false] at member
    exact ⟨e, member, rfl⟩
  · simp only [Env.updateRange_bundles, Env.updateBundle_bundles, if_true, Ne.symm sbNew,
      if_false] at member
    exact .inl ⟨e, List.drop_subset _ _ member, rfl⟩
  · simp only [Env.updateRange_bundles, Env.updateBundle_bundles]
    split_ifs <;> subst_vars <;> exact ⟨rfl, rfl⟩

theorem cutLast (frame : SplitFrame origin s bundle newBundle spillset)
    (inv : SplitInv origin s bundle newBundle spillset point added) {sb split : Nat}
    {entry : LiveRangeListEntry} (spill : (s.spillsets spillset).spillBundle = some sb)
    (last : (s.bundles bundle).ranges.getLast? = some entry)
    (cut : cutTail s bundle sb split entry.range.to (s.ranges entry.index).vreg = .ok s') :
    SplitFrame origin s' bundle newBundle spillset := by
  obtain ⟨init, whole⟩ := List.getLast?_eq_some_iff.mp last
  obtain ⟨sbBundle, sbNew, -⟩ := inv.spillApart sb spill
  have entryIn := List.mem_of_getLast?_eq_some last
  obtain ⟨v, vreg⟩ := Option.isSome_iff_exists.mp (inv.vregs entry (List.mem_append_left _ entryIn))
  rw [vreg] at cut
  obtain ⟨s'', run, bundles', ranges', numRanges', numBundles', spillsets', -, -, -, spilled'⟩ :=
    cutTail_spec split v whole sbBundle (inv.inArena entry (by simp [splitPieces, entryIn]))
  obtain rfl : s' = s'' := Except.ok.inj (cut.symm.trans run)
  refine frame.transfer spill spilled' (by omega) numBundles' (fun lr bound apart => ?_)
    (fun e member => ?_) (fun e member => ?_) (fun y ne₁ _ ne₃ => by simp [bundles',
      Function.update_apply, ne₁, ne₃]) (fun y => ?_) spillsets'
  · have := apart entry (List.mem_append_left _ entryIn)
    simp [ranges', Function.update_apply, Ne.symm this, Nat.ne_of_lt bound]
  · simp only [bundles', Function.update_apply, Ne.symm sbBundle, if_true, if_false] at member
    rcases List.mem_append.mp member with inInit | isLast
    · exact ⟨e, by simp [whole, inInit], rfl⟩
    · exact ⟨entry, entryIn, by simp at isLast; simp [isLast]⟩
  · simp only [bundles', Function.update_apply, Ne.symm inv.apart.1, Ne.symm sbNew,
      if_false] at member
    exact .inl ⟨e, member, rfl⟩
  · simp only [bundles', Function.update_apply]
    split_ifs <;> subst_vars <;> exact ⟨rfl, rfl⟩

theorem cutFirst (frame : SplitFrame origin s bundle newBundle spillset)
    (inv : SplitInv origin s bundle newBundle spillset point added) {sb split : Nat}
    {entry : LiveRangeListEntry} (spill : (s.spillsets spillset).spillBundle = some sb)
    (first : (s.bundles newBundle).ranges.head? = some entry)
    (cut : cutHead s newBundle sb split entry.range.from (s.ranges entry.index).vreg = .ok s') :
    SplitFrame origin s' bundle newBundle spillset := by
  obtain ⟨rest, whole⟩ := List.head?_eq_some_iff.mp first
  obtain ⟨sbBundle, sbNew, -⟩ := inv.spillApart sb spill
  have entryIn := List.mem_of_mem_head? first
  obtain ⟨v, vreg⟩ := Option.isSome_iff_exists.mp (inv.vregs entry (List.mem_append_right _ entryIn))
  rw [vreg] at cut
  obtain ⟨s'', run, bundles', ranges', numRanges', numBundles', spillsets', -, -, -, spilled'⟩ :=
    cutHead_spec split v whole sbNew (inv.inArena entry (by simp [splitPieces, entryIn]))
  obtain rfl : s' = s'' := Except.ok.inj (cut.symm.trans run)
  refine frame.transfer spill spilled' (by omega) numBundles' (fun lr bound apart => ?_)
    (fun e member => ?_) (fun e member => ?_) (fun y _ ne₂ ne₃ => by simp [bundles',
      Function.update_apply, ne₂, ne₃]) (fun y => ?_) spillsets'
  · have := apart entry (List.mem_append_right _ entryIn)
    simp [ranges', Function.update_apply, Ne.symm this, Nat.ne_of_lt bound]
  · simp only [bundles', Function.update_apply, inv.apart.1, Ne.symm sbBundle,
      if_false] at member
    exact ⟨e, member, rfl⟩
  · simp only [bundles', Function.update_apply, Ne.symm sbNew, if_true, if_false] at member
    rcases List.mem_cons.mp member with isFirst | inRest
    · exact .inl ⟨entry, entryIn, by simp [isFirst]⟩
    · exact .inl ⟨e, by simp [whole, inRest], rfl⟩
  · simp only [bundles', Function.update_apply]
    split_ifs <;> subst_vars <;> exact ⟨rfl, rfl⟩

end Steps

end SplitFrame

/-- What the requeueing does after the trimming: only the cached properties of the two halves
and the queue change, each half that kept a range is queued, and its minimal flag is the one its
first and last ranges give. -/
structure Requeued (s s' : Env) (bundle newBundle regHint : Nat) : Prop where
  ranges : s'.ranges = s.ranges
  numRanges : s'.numRanges = s.numRanges
  numBundles : s'.numBundles = s.numBundles
  spillsets : s'.spillsets = s.spillsets
  pregs : s'.pregs = s.pregs
  spilled : s'.spilledBundles = s.spilledBundles
  others : ∀ x, x ≠ bundle → x ≠ newBundle → s'.bundles x = s.bundles x
  fields : ∀ x, (s'.bundles x).ranges = (s.bundles x).ranges ∧
    (s'.bundles x).spillset = (s.bundles x).spillset ∧
    (s'.bundles x).allocation = (s.bundles x).allocation
  queue : s'.allocationQueue = s.allocationQueue ++
    ([bundle, newBundle].filter fun x => !(s'.bundles x).ranges.isEmpty).map
      fun x => ⟨(s'.bundles x).prio, x, regHint⟩
  flags : ∀ x ∈ [bundle, newBundle], ∀ first last, (s'.bundles x).ranges.head? = some first →
    (s'.bundles x).ranges.getLast? = some last →
    minimalBundle s' x = (bundleFlags s' first last.range.to).1

theorem requeueIfNonempty_minimal {ctx : Ctx} {s s' : Env} {x regHint : Nat}
    (run : requeueIfNonempty ctx s x regHint = .ok s') {first last : LiveRangeListEntry}
    (head : (s.bundles x).ranges.head? = some first)
    (tail : (s.bundles x).ranges.getLast? = some last) :
    minimalBundle s' x = (bundleFlags s first last.range.to).1 := by
  obtain ⟨rest, whole⟩ := List.head?_eq_some_iff.mp head
  have lastEq := Option.some.inj
    ((List.getLast?_eq_getLast _ (List.cons_ne_nil _ _)).symm.trans (whole ▸ tail))
  simp only [requeueIfNonempty, recomputeBundleProperties, whole, List.length_cons,
    Nat.zero_lt_succ, if_true, Except.ok.injEq] at run
  subst run
  simp [minimalBundle, lastEq]

theorem requeued_of_run {ctx : Ctx} {s₃ s₄ s' : Env} {bundle newBundle regHint : Nat}
    (apart : bundle ≠ newBundle)
    (first : requeueIfNonempty ctx s₃ bundle regHint = .ok s₄)
    (second : requeueIfNonempty ctx s₄ newBundle regHint = .ok s') :
    Requeued s₃ s' bundle newBundle regHint := by
  obtain ⟨s₄', b₄, run₄, eq₄, ranges₄, spillset₄, alloc₄⟩ :=
    requeueIfNonempty_spec ctx s₃ bundle regHint
  obtain ⟨s₅', b₅, run₅, eq₅, ranges₅, spillset₅, alloc₅⟩ :=
    requeueIfNonempty_spec ctx s₄ newBundle regHint
  obtain rfl : s₄ = s₄' := Except.ok.inj (first.symm.trans run₄)
  obtain rfl : s' = s₅' := Except.ok.inj (second.symm.trans run₅)
  have minimal₄ := @requeueIfNonempty_minimal ctx s₃ _ bundle regHint first
  have minimal₅ := @requeueIfNonempty_minimal ctx _ _ newBundle regHint second
  subst eq₄ eq₅
  simp only [Function.update_apply, if_neg (Ne.symm apart)] at ranges₅ spillset₅ alloc₅ minimal₅
  refine ⟨rfl, rfl, rfl, rfl, rfl, rfl, fun x ne₁ ne₂ => by simp [Function.update_apply, ne₁, ne₂],
    fun x => ?_, ?_, fun x member f l head tail => ?_⟩
  · by_cases here : x = newBundle
    · subst here; simp [ranges₅, spillset₅, alloc₅]
    · by_cases there : x = bundle
      · subst there; simp [here, ranges₄, spillset₄, alloc₄]
      · simp [here, there]
  · by_cases kept : (s₃.bundles bundle).ranges = [] <;>
      by_cases moved : (s₃.bundles newBundle).ranges = [] <;>
      simp [List.filter_cons, apart, Ne.symm apart, ranges₄, ranges₅, kept, moved]
  · rcases List.mem_pair.mp member with rfl | rfl
    · simp only [Function.update_apply, apart, if_false, if_true, ranges₄] at head tail
      simpa [minimalBundle, Function.update_apply, apart] using minimal₄ head tail
    · simp only [Function.update_same, ranges₅] at head tail
      simpa [minimalBundle] using minimal₅ head tail

section Loops

variable {origin s' : Env} {bundle newBundle spillset point : Nat}

theorem trimTail_frame : ∀ (fuel : Nat) (s : Env) (added : List LiveRangeListEntry),
    SplitInv origin s bundle newBundle spillset point added →
    SplitFrame origin s bundle newBundle spillset → trimTail s bundle fuel = .ok s' →
    SplitFrame origin s' bundle newBundle spillset
  | 0, _, _, _, _, run => by cases run
  | fuel + 1, s, added, inv, frame, run => by
    cases last : (s.bundles bundle).ranges.getLast? with
    | none =>
      simp only [trimTail, last, Except.ok.injEq] at run
      exact run ▸ frame
    | some entry =>
      obtain ⟨sb, s₁, found, spill, inv₁, ranges₁, -, -, others₁⟩ := inv.getOrCreate (.inl rfl)
      have frame₁ := frame.getOrCreate inv (.inl rfl) found
      have last₁ : (s₁.bundles bundle).ranges.getLast? = some entry := by
        rw [others₁ _ (Ne.symm (inv₁.spillApart sb spill).1), last]
      cases lastUse : (s.ranges entry.index).uses.getLast? with
      | none =>
        simp only [trimTail, last, lastUse, found] at run
        exact trimTail_frame fuel _ _
          (inv₁.popLast spill last₁ (by rw [ranges₁]; simpa using lastUse) rfl)
          (frame₁.popLast inv₁ spill last₁ rfl) run
      | some u =>
        by_cases cuts : ProgPoint.before (ProgPoint.inst u.pos + 1) < entry.range.to
        · simp only [trimTail, last, lastUse, if_pos cuts, found] at run
          rw [← ranges₁] at run
          exact frame₁.cutLast inv₁ spill last₁ run
        · simp only [trimTail, last, lastUse, if_neg cuts, Except.ok.injEq] at run
          exact run ▸ frame

theorem trimHead_frame : ∀ (fuel : Nat) (s : Env) (added : List LiveRangeListEntry),
    SplitInv origin s bundle newBundle spillset point added →
    SplitFrame origin s bundle newBundle spillset → trimHead s newBundle fuel = .ok s' →
    SplitFrame origin s' bundle newBundle spillset
  | 0, _, _, _, _, run => by cases run
  | fuel + 1, s, added, inv, frame, run => by
    cases first : (s.bundles newBundle).ranges.head? with
    | none =>
      simp only [trimHead, first, Except.ok.injEq] at run
      exact run ▸ frame
    | some entry =>
      by_cases atDef : (s.ranges entry.index).startsAtDef = true
      · simp only [trimHead, first, atDef, if_true, Except.ok.injEq] at run
        exact run ▸ frame
      obtain ⟨sb, s₁, found, spill, inv₁, ranges₁, -, -, others₁⟩ := inv.getOrCreate (.inr rfl)
      have frame₁ := frame.getOrCreate inv (.inr rfl) found
      have first₁ : (s₁.bundles newBundle).ranges.head? = some entry := by
        rw [others₁ _ (Ne.symm (inv₁.spillApart sb spill).2.1), first]
      cases firstUse : (s.ranges entry.index).uses.head? with
      | none =>
        simp only [trimHead, first, atDef, firstUse, found] at run
        exact trimHead_frame fuel _ _
          (inv₁.popFirst spill first₁ (by rw [ranges₁]; simpa using firstUse) rfl)
          (frame₁.popFirst inv₁ spill first₁ rfl) run
      | some u =>
        by_cases cuts : entry.range.from < ProgPoint.before (ProgPoint.inst u.pos)
        · simp only [trimHead, first, atDef, firstUse, if_pos cuts, found] at run
          rw [← ranges₁] at run
          exact frame₁.cutFirst inv₁ spill first₁ run
        · simp only [trimHead, first, atDef, firstUse, if_neg cuts] at run
          simp only [Bool.false_eq_true, if_false, Except.ok.injEq] at run
          exact run ▸ frame

end Loops


theorem SplitFrame.requeued {origin s s' : Env} {bundle newBundle spillset regHint : Nat}
    (frame : SplitFrame origin s bundle newBundle spillset)
    (requeued : Requeued s s' bundle newBundle regHint) :
    SplitFrame origin s' bundle newBundle spillset where
  spilled := by rw [requeued.spilled]; exact frame.spilled
  numRanges := by rw [requeued.numRanges]; exact frame.numRanges
  numBundles := by rw [requeued.numBundles]; exact frame.numBundles
  ranges lr bound outside := by rw [requeued.ranges]; exact frame.ranges lr bound outside
  keptFrom := by rw [(requeued.fields bundle).1]; exact frame.keptFrom
  movedFrom := by rw [(requeued.fields newBundle).1]; exact frame.movedFrom
  bundles x ne₁ ne₂ ne₃ := by
    rw [requeued.others x ne₁ ne₂]; exact frame.bundles x ne₁ ne₂ (requeued.spillsets ▸ ne₃)
  allocation x := by rw [(requeued.fields x).2.2]; exact frame.allocation x
  spillsets := by rw [requeued.spillsets]; exact frame.spillsets
  spillsetOf sb found := by
    rw [(requeued.fields sb).2.1]; exact frame.spillsetOf sb (requeued.spillsets ▸ found)
  created x lower upper := by
    rw [requeued.spillsets]; exact frame.created x lower (requeued.numBundles ▸ upper)
  fresh x lower upper := by
    rw [(requeued.fields x).2.2]; exact frame.fresh x lower (requeued.numBundles ▸ upper)
  listed sb found := by
    rw [requeued.spilled]; exact frame.listed sb (requeued.spillsets ▸ found)

/-- A split of a well-formed, non-minimal bundle at a point inside it succeeds: the normalized
point lies strictly inside the bundle, the split invariant holds after the trimming, the
requeueing only caches the halves' properties and queues them, and the frame holds of the
result. The new bundle is the next fresh handle. -/
theorem splitAndRequeueBundle_frame {ctx : Ctx} {s : Env} {bundle splitAt regHint : Nat}
    {first last : LiveRangeListEntry} (ready : SplitReady s bundle)
    (spillOf : ∀ sb, (s.spillsets (s.bundles bundle).spillset).spillBundle = some sb →
      (s.bundles sb).spillset = (s.bundles bundle).spillset)
    (firstEntry : (s.bundles bundle).ranges.head? = some first)
    (lastEntry : (s.bundles bundle).ranges.getLast? = some last)
    (notMinimal : spansOneInst first.range.from last.range.to = false)
    (start_le : first.range.from ≤ splitAt) (lt_end : splitAt < last.range.to) :
    ∃ s' s₃ point added, splitAndRequeueBundle ctx s bundle splitAt regHint = .ok s' ∧
      first.range.from < point ∧ point < last.range.to ∧
      SplitInv s s₃ bundle s.numBundles (s.bundles bundle).spillset point added ∧
      SplitFrame s s' bundle s.numBundles (s.bundles bundle).spillset ∧
      Requeued s₃ s' bundle s.numBundles regHint := by
  obtain ⟨rest, ranges⟩ := List.head?_eq_some_iff.mp firstEntry
  have lastEq : (first :: rest).getLast (List.cons_ne_nil _ _) = last := by
    rw [ranges, List.getLast?_eq_getLast _ (List.cons_ne_nil _ _)] at lastEntry
    exact Option.some.inj lastEntry
  have firstUse : ∀ pos ∈ firstUseInBundle s (s.bundles bundle).ranges,
      first.range.from ≤ pos ∧ pos < last.range.to := by
    rw [ranges, ← lastEq]; exact firstUseInBundle_inside (ranges ▸ ready.ready)
  obtain ⟨-, after_start, before_end⟩ :=
    normalizeSplitAt_inside notMinimal firstUse start_le lt_end
  obtain ⟨s₁, list, straddle, numBundles₁, inv₁⟩ :=
    SplitInv.start ready firstEntry lastEntry after_start before_end
  have frame₁ := SplitFrame.start straddle spillOf ready.bundle_lt
  obtain ⟨s₂, more₂, trimmedTail, inv₂, -⟩ := trimTail_spec _ _ [] inv₁ (Nat.lt_succ_self _)
  have frame₂ := trimTail_frame _ _ _ inv₁ frame₁ trimmedTail
  obtain ⟨s₃, more₃, trimmedHead, inv₃, -, -⟩ := trimHead_spec _ _ _ inv₂ (Nat.lt_succ_self _)
  have frame₃ := trimHead_frame _ _ _ inv₂ frame₂ trimmedHead
  obtain ⟨s₄, -, requeued₄, -⟩ := requeueIfNonempty_spec ctx s₃ bundle regHint
  obtain ⟨s₅, -, requeued₅, -⟩ := requeueIfNonempty_spec ctx s₄ s.numBundles regHint
  have requeued := requeued_of_run inv₃.apart.1 requeued₄ requeued₅
  refine ⟨s₅, s₃, _, _, ?_, after_start, before_end, inv₃, frame₃.requeued requeued, requeued⟩
  simp only [splitAndRequeueBundle, firstEntry, lastEntry]
  generalize found : splitIndices _ _ 0 (0, 0) = idx at straddle ⊢
  obtain ⟨lastIdx, firstIdx⟩ := idx
  simp only [bind, Except.bind, straddle, (moveToNewBundle_spec s₁ _ list).1, numBundles₁,
    trimmedTail, trimmedHead, requeued₄, requeued₅]

end IonRegalloc
