import IonRegalloc.Proof.RoundTrip
import IonRegalloc.Proof.SplitFrame

/-! The run invariant of `process_bundles`, and that each outcome `Processed` names keeps it. -/

namespace IonRegalloc

open AllocMap

/-- A bundle of the arena that is not the spill bundle of its spillset: one the allocation loop
may queue, assign, evict or split. -/
def Allocatable (s : Env) (x : Nat) : Prop :=
  x < s.numBundles ∧ (s.spillsets (s.bundles x).spillset).spillBundle ≠ some x

instance (s : Env) (x : Nat) : Decidable (Allocatable s x) := inferInstanceAs (Decidable (_ ∧ _))

/-- The invariant every step of `process_bundles` keeps. -/
structure AllocInv (s : Env) : Prop where
  occupancy : Occupancy s
  recorded : ∀ x p, (s.bundles x).allocation = .reg p → ∀ e ∈ (s.bundles x).ranges,
    (LiveRangeKey.fromRange e.range, some e.index) ∈ (s.pregs p).allocations
  allocated : ∀ x p, (s.bundles x).allocation = .reg p →
    Allocatable s x ∧ (s.bundles x).ranges ≠ []
  queued : ∀ q ∈ s.allocationQueue, Allocatable s q.bundle ∧
    (s.bundles q.bundle).allocation = .none ∧ (s.bundles q.bundle).ranges ≠ []
  queueNodup : (s.allocationQueue.map (·.bundle)).Nodup
  ready : ∀ x, Allocatable s x → ListReady s (s.bundles x).ranges ∧
    ∀ e ∈ (s.bundles x).ranges, (s.ranges e.index).vreg.isSome
  flags : ∀ x, Allocatable s x → ∀ first last, (s.bundles x).ranges.head? = some first →
    (s.bundles x).ranges.getLast? = some last →
    minimalBundle s x = spansOneInst first.range.from last.range.to
  owner : ∀ x < s.numBundles, ∀ e ∈ (s.bundles x).ranges,
    (s.ranges e.index).bundle = x ∧ e.index < s.numRanges
  spillOf : ∀ ss sb, (s.spillsets ss).spillBundle = some sb →
    sb < s.numBundles ∧ (s.bundles sb).spillset = ss

/-- The bundle `process_bundle` is handed: allocatable, unallocated, with ranges, and no longer
in the queue. -/
structure Pending (s : Env) (bundle : Nat) : Prop where
  allocatable : Allocatable s bundle
  unallocated : (s.bundles bundle).allocation = .none
  nonempty : (s.bundles bundle).ranges ≠ []
  dequeued : bundle ∉ s.allocationQueue.map (·.bundle)

/-- Two states with the same live ranges, bundle lists, spillsets, minimal flags and counts:
what assigning, evicting, queueing and marking leave alone. -/
structure SameShape (s s' : Env) : Prop where
  ranges : s'.ranges = s.ranges
  numRanges : s'.numRanges = s.numRanges
  numBundles : s'.numBundles = s.numBundles
  spillBundle : ∀ ss, (s'.spillsets ss).spillBundle = (s.spillsets ss).spillBundle
  bundles : ∀ x, (s'.bundles x).ranges = (s.bundles x).ranges ∧
    (s'.bundles x).spillset = (s.bundles x).spillset ∧ (s'.bundles x).minimal = (s.bundles x).minimal

namespace SameShape

variable {s s' : Env}

theorem allocatable (shape : SameShape s s') (x : Nat) : Allocatable s' x ↔ Allocatable s x := by
  simp only [Allocatable, shape.numBundles, (shape.bundles x).2.1, shape.spillBundle]

end SameShape

namespace AllocInv

variable {ctx : Ctx} {s s' : Env}

theorem ofShape (inv : AllocInv s) (shape : SameShape s s') (occupancy : Occupancy s')
    (recorded : ∀ x p, (s'.bundles x).allocation = .reg p → ∀ e ∈ (s'.bundles x).ranges,
      (LiveRangeKey.fromRange e.range, some e.index) ∈ (s'.pregs p).allocations)
    (allocated : ∀ x p, (s'.bundles x).allocation = .reg p →
      Allocatable s x ∧ (s.bundles x).ranges ≠ [])
    (queued : ∀ q ∈ s'.allocationQueue, Allocatable s q.bundle ∧
      (s'.bundles q.bundle).allocation = .none ∧ (s.bundles q.bundle).ranges ≠ [])
    (queueNodup : (s'.allocationQueue.map (·.bundle)).Nodup) : AllocInv s' where
  occupancy := occupancy
  recorded := recorded
  allocated x p assigned := by
    rw [shape.allocatable, (shape.bundles x).1]; exact allocated x p assigned
  queued q member := by
    rw [shape.allocatable, (shape.bundles _).1]; exact queued q member
  queueNodup := queueNodup
  ready x allocatable := by
    obtain ⟨ready, vregs⟩ := inv.ready x ((shape.allocatable x).mp allocatable)
    rw [(shape.bundles x).1]
    exact ⟨ready.congr fun _ _ => by rw [shape.ranges]; exact ⟨rfl, rfl⟩, by rwa [shape.ranges]⟩
  flags x allocatable := by
    simp only [minimalBundle, (shape.bundles x).1, (shape.bundles x).2.2]
    exact inv.flags x ((shape.allocatable x).mp allocatable)
  owner x bound := by
    rw [(shape.bundles x).1, shape.ranges, shape.numRanges]
    exact inv.owner x (shape.numBundles ▸ bound)
  spillOf ss sb found := by
    rw [shape.spillBundle] at found
    rw [(shape.bundles sb).2.1, shape.numBundles]
    exact inv.spillOf ss sb found

theorem owner_eq (inv : AllocInv s) {x y : Nat} (boundX : x < s.numBundles)
    (boundY : y < s.numBundles) {e f : LiveRangeListEntry} (inX : e ∈ (s.bundles x).ranges)
    (inY : f ∈ (s.bundles y).ranges) (same : e.index = f.index) : x = y :=
  (inv.owner x boundX e inX).1.symm.trans (same ▸ (inv.owner y boundY f inY).1)

theorem congr (inv : AllocInv s) (ranges : s'.ranges = s.ranges) (numRanges : s'.numRanges = s.numRanges)
    (bundles : s'.bundles = s.bundles) (numBundles : s'.numBundles = s.numBundles)
    (spillBundle : ∀ ss, (s'.spillsets ss).spillBundle = (s.spillsets ss).spillBundle)
    (pregs : s'.pregs = s.pregs) (queue : s'.allocationQueue = s.allocationQueue) : AllocInv s' := by
  have shape : SameShape s s' := ⟨ranges, numRanges, numBundles, spillBundle, by simp [bundles]⟩
  refine inv.ofShape shape ⟨by rw [pregs]; exact inv.occupancy.sorted, ?_⟩ ?_ ?_ ?_ ?_
  · rw [pregs, ranges, bundles]; exact inv.occupancy.owned
  · rw [pregs, bundles]; exact inv.recorded
  · rw [bundles]; exact inv.allocated
  · rw [queue, bundles]; exact inv.queued
  · rw [queue]; exact inv.queueNodup

theorem updateSpillSet (inv : AllocInv s) {ss : Nat} {f : SpillSet → SpillSet}
    (keeps : (f (s.spillsets ss)).spillBundle = (s.spillsets ss).spillBundle) :
    AllocInv (s.updateSpillSet ss f) :=
  inv.congr rfl rfl rfl rfl (fun x => by by_cases here : x = ss <;> simp [here, keeps]) rfl rfl

end AllocInv

section Evict

variable {ctx : Ctx} {s : Env} {x p b : Nat}

theorem evictBundle_of_reg (allocated : (s.bundles x).allocation = .reg p) :
    evictBundle ctx s x = ((s.updateBundle x fun b => { b with allocation := .none }).updatePReg p
      fun r => { r with allocations := removeRanges (s.bundles x).ranges r.allocations }).enqueue
        x (s.bundles x).prio ctx.invalidPReg := by
  simp [evictBundle, allocated, Allocation.asReg]

theorem sameShape_evictBundle (ctx : Ctx) (s : Env) (x : Nat) : SameShape s (evictBundle ctx s x) := by
  refine ⟨evictBundle_ranges, ?_, ?_, by simp, fun y => ?_⟩
  · unfold evictBundle; split <;> rfl
  · unfold evictBundle; split <;> rfl
  · obtain ⟨_, same⟩ := evictBundle_bundles ctx s x y
    simp [same]

theorem mem_removeRanges {ranges : List LiveRangeListEntry} {m : AllocMap} (sorted : Sorted m)
    (rangesSorted : RangesSorted ranges)
    (present : ∀ r ∈ ranges, (LiveRangeKey.fromRange r.range, some r.index) ∈ m)
    {e : LiveRangeKey × Option Nat} (member : e ∈ m) (other : e ∉ bundleEntries ranges) :
    e ∈ removeRanges ranges m :=
  (List.mem_append.mp ((removeRanges_perm ranges m sorted rangesSorted present).symm.subset
    member)).resolve_right other

theorem AllocInv.not_queued (inv : AllocInv s) (allocated : (s.bundles x).allocation = .reg p) :
    x ∉ s.allocationQueue.map (·.bundle) := fun member => by
  obtain ⟨q, queued, rfl⟩ := List.mem_map.mp member
  simp [(inv.queued q queued).2.1] at allocated

/-- Evicting an allocated bundle keeps the invariant: the entries it removes are exactly its
own, since every other entry of the map belongs to another bundle's live range. -/
theorem AllocInv.evictReg (inv : AllocInv s) (allocated : (s.bundles x).allocation = .reg p) :
    AllocInv (evictBundle ctx s x) := by
  obtain ⟨allocatable, nonempty⟩ := inv.allocated x p allocated
  have sorted := inv.occupancy.sorted p
  have shrinks := fun q => @evictBundle_allocations_sublist ctx s x q
  have shape := sameShape_evictBundle ctx s x
  rw [evictBundle_of_reg allocated] at shrinks shape ⊢
  refine inv.ofShape shape ⟨fun q => (inv.occupancy.sorted q).sublist (shrinks q),
    fun q e member lr valid => ?_⟩ (fun y q assigned e inRanges => ?_) (fun y q assigned => ?_)
    (fun q member => ?_) ?_
  · obtain ⟨assigned, entry, inRanges, index, key⟩ :=
      inv.occupancy.owned q e ((shrinks q).subset member) lr valid
    by_cases owner : (s.ranges lr).bundle = x
    · rw [owner, allocated, Allocation.reg.injEq] at assigned
      subst assigned
      rw [owner] at inRanges
      have gone := not_mem_removeRanges _ _ sorted entry inRanges e.2
      rw [key] at gone
      exact absurd member (by simpa using gone)
    · simpa [owner] using ⟨assigned, entry, inRanges, index, key⟩
  · have other : y ≠ x := by rintro rfl; simp at assigned
    simp only [Env.enqueue_bundles, Env.updatePReg_bundles, Env.updateBundle_bundles, other,
      if_false] at assigned inRanges
    have old := inv.recorded y q assigned e inRanges
    by_cases here : q = p
    · subst here
      suffices notOwn : (LiveRangeKey.fromRange e.range, some e.index) ∉
          bundleEntries (s.bundles x).ranges by
        simpa using mem_removeRanges sorted (inv.ready x allocatable).1.sorted
          (inv.recorded x q allocated) old notOwn
      intro own
      obtain ⟨r, mine, same⟩ := List.mem_map.mp own
      simp only [Prod.mk.injEq, Option.some.injEq] at same
      exact other (inv.owner_eq (inv.allocated y q assigned).1.1 allocatable.1 inRanges mine
        same.2.symm)
    · simpa [here] using old
  · have other : y ≠ x := by rintro rfl; simp at assigned
    exact inv.allocated y q (by simpa [other] using assigned)
  · rcases List.mem_append.mp member with old | new
    · have other : q.bundle ≠ x := fun same =>
        inv.not_queued allocated (same ▸ List.mem_map_of_mem _ old)
      simpa [other] using inv.queued q old
    · obtain rfl := List.mem_singleton.mp new
      simpa using ⟨allocatable, nonempty⟩
  · simpa using inv.queueNodup.append (List.nodup_singleton x)
      (List.disjoint_singleton.mpr (inv.not_queued allocated))

theorem AllocInv.evictBundle (inv : AllocInv s) (x : Nat) : AllocInv (evictBundle ctx s x) := by
  cases allocated : (s.bundles x).allocation with
  | reg p => exact inv.evictReg allocated
  | _ => simpa [IonRegalloc.evictBundle, allocated, Allocation.asReg] using inv

theorem Pending.evictBundle (pending : Pending s b) (x : Nat) :
    Pending (evictBundle ctx s x) b := by
  have shape := sameShape_evictBundle ctx s x
  cases allocated : (s.bundles x).allocation with
  | reg p =>
    have other : b ≠ x := by rintro rfl; simp [pending.unallocated] at allocated
    rw [evictBundle_of_reg allocated] at shape ⊢
    refine ⟨(shape.allocatable b).mpr pending.allocatable, by simp [other, pending.unallocated],
      by simp [other, pending.nonempty], by simpa [other] using pending.dequeued⟩
  | _ => simpa [IonRegalloc.evictBundle, allocated, Allocation.asReg] using pending

theorem evictAll_inv : ∀ (bundles : List Nat) (s : Env), AllocInv s → Pending s b →
    AllocInv (evictAll ctx s bundles) ∧ Pending (evictAll ctx s bundles) b
  | [], _, inv, pending => ⟨inv, pending⟩
  | x :: rest, _, inv, pending => evictAll_inv rest _ (inv.evictBundle x) (pending.evictBundle x)

end Evict

section Assign

variable {s : Env} {b reg : Nat}

theorem AllocInv.assign_entries (inv : AllocInv s) (pending : Pending s b) {c : Option Nat}
    (free : tryToAllocateBundleToReg s b reg c = .ok (.allocated (.reg reg), assignBundle s b reg)) :
    (∀ e ∈ (s.pregs reg).allocations, ∀ r ∈ (s.bundles b).ranges,
      ¬ (LiveRangeKey.fromRange r.range).Overlaps e.1) ∧
    (insertRanges (s.bundles b).ranges (s.pregs reg).allocations).Perm
      (bundleEntries (s.bundles b).ranges ++ (s.pregs reg).allocations) := by
  obtain ⟨ready, -⟩ := inv.ready b pending.allocatable
  have apart := tryToAllocateBundleToReg_allocated_free (inv.occupancy.sorted reg)
    ready.sorted.toOrdered.sortedByStart free
  exact ⟨apart, insertRanges_perm _ _ ready.sorted.toOrdered.disjoint apart⟩

theorem sameShape_assignBundle (s : Env) (b reg : Nat) : SameShape s (assignBundle s b reg) :=
  ⟨rfl, rfl, rfl, fun _ => rfl, fun y => by by_cases here : y = b <;> simp [assignBundle, here]⟩

/-- Assigning a pending bundle to a register whose probe found it free keeps the invariant: its
ranges' entries join the map, overlapping none of the entries there. -/
theorem AllocInv.assign (inv : AllocInv s) (pending : Pending s b) {c : Option Nat}
    (free : tryToAllocateBundleToReg s b reg c = .ok (.allocated (.reg reg), assignBundle s b reg)) :
    AllocInv (assignBundle s b reg) := by
  obtain ⟨ready, -⟩ := inv.ready b pending.allocatable
  obtain ⟨apart, inserted⟩ := inv.assign_entries pending free
  have shape := sameShape_assignBundle s b reg
  have other : ∀ {y q}, (s.bundles y).allocation = .reg q → y ≠ b := by
    rintro y q assigned rfl; simp [pending.unallocated] at assigned
  refine inv.ofShape shape ⟨fun q => ?_, fun q e member lr valid => ?_⟩
    (fun y q assigned e inRanges => ?_) (fun y q assigned => ?_) (fun q member => ?_) inv.queueNodup
  · by_cases here : q = reg
    · subst here
      simpa [assignBundle] using sorted_insertRanges _ _ (inv.occupancy.sorted q) ready.sorted apart
    · simpa [assignBundle, here] using inv.occupancy.sorted q
  · by_cases here : q = reg
    · subst here
      simp only [assignBundle, Env.updatePReg_pregs, if_true] at member
      rcases List.mem_append.mp (inserted.subset member) with mine | old
      · obtain ⟨r, inRanges, rfl⟩ := List.mem_map.mp mine
        cases valid
        simpa [assignBundle, (inv.owner b pending.allocatable.1 r inRanges).1] using
          ⟨r, inRanges, rfl, rfl⟩
      · obtain ⟨assigned, rest⟩ := inv.occupancy.owned q e old lr valid
        simpa [assignBundle, other assigned] using ⟨assigned, rest⟩
    · obtain ⟨assigned, rest⟩ :=
        inv.occupancy.owned q e (by simpa [assignBundle, here] using member) lr valid
      simpa [assignBundle, here, other assigned] using ⟨assigned, rest⟩
  · by_cases mine : y = b
    · subst mine
      simp only [assignBundle, Env.updatePReg_bundles, Env.updateBundle_bundles, if_true,
        Allocation.reg.injEq] at assigned inRanges
      subst assigned
      simpa [assignBundle] using
        inserted.symm.subset (List.mem_append_left _ (List.mem_map_of_mem _ inRanges))
    · simp only [assignBundle, Env.updatePReg_bundles, Env.updateBundle_bundles, mine,
        if_false] at assigned inRanges
      have old := inv.recorded y q assigned e inRanges
      by_cases here : q = reg
      · subst here
        simpa [assignBundle] using inserted.symm.subset (List.mem_append_right _ old)
      · simpa [assignBundle, here] using old
  · by_cases mine : y = b
    · subst mine; exact ⟨pending.allocatable, pending.nonempty⟩
    · exact inv.allocated y q (by simpa [assignBundle, mine] using assigned)
  · have other : q.bundle ≠ b := fun same =>
      pending.dequeued (same ▸ List.mem_map_of_mem _ member)
    simpa [assignBundle, other] using inv.queued q member

end Assign

section MoveToSpill

variable {s : Env} {b spill : Nat}

theorem moveToSpillBundle_eq (apart : spill ≠ b) : moveToSpillBundle s b spill = { s with
    ranges := fun i => if i ∈ (s.bundles b).ranges.map (·.index) then
      { s.ranges i with bundle := spill } else s.ranges i
    bundles := fun y => if y = spill then
        { s.bundles spill with ranges := (s.bundles spill).ranges ++ (s.bundles b).ranges }
      else if y = b then { s.bundles b with ranges := [] } else s.bundles y } := by
  simp only [moveToSpillBundle, foldl_setOwner, Env.updateBundle]
  congr 1
  funext y
  by_cases here : y = spill <;> simp [Function.update_apply, here, apart]

theorem moveToSpillBundle_frame (s : Env) (b spill : Nat) :
    (moveToSpillBundle s b spill).pregs = s.pregs ∧
      (moveToSpillBundle s b spill).allocationQueue = s.allocationQueue ∧
      (moveToSpillBundle s b spill).numBundles = s.numBundles ∧
      (moveToSpillBundle s b spill).numRanges = s.numRanges ∧
      (moveToSpillBundle s b spill).spillsets = s.spillsets ∧
      (moveToSpillBundle s b spill).spilledBundles = s.spilledBundles := by
  simp [moveToSpillBundle, foldl_setOwner]

theorem moveToSpillBundle_bundles (apart : spill ≠ b) (y : Nat) :
    (moveToSpillBundle s b spill).bundles y = if y = spill then
        { s.bundles spill with ranges := (s.bundles spill).ranges ++ (s.bundles b).ranges }
      else if y = b then { s.bundles b with ranges := [] } else s.bundles y := by
  rw [moveToSpillBundle_eq apart]

theorem moveToSpillBundle_ranges (apart : spill ≠ b) (i : Nat) :
    (moveToSpillBundle s b spill).ranges i = if i ∈ (s.bundles b).ranges.map (·.index) then
      { s.ranges i with bundle := spill } else s.ranges i := by
  rw [moveToSpillBundle_eq apart]

/-- Handing an `Any` bundle's ranges to its spillset's spill bundle keeps the invariant: the spill
bundle is never allocated, queued or allocatable, and no other bundle changes. -/
theorem AllocInv.moveToSpill (inv : AllocInv s) (pending : Pending s b)
    (found : (s.spillsets (s.bundles b).spillset).spillBundle = some spill) :
    AllocInv (moveToSpillBundle s b spill) := by
  obtain ⟨spill_lt, spillSet⟩ := inv.spillOf _ spill found
  have apart : spill ≠ b := fun same => pending.allocatable.2 (same ▸ found)
  have notAllocatable : ¬ Allocatable s spill := fun allocatable =>
    allocatable.2 (by rw [spillSet]; exact found)
  have ownedElsewhere : ∀ i, (s.ranges i).bundle ≠ b → i ∉ (s.bundles b).ranges.map (·.index) :=
    fun i other mine => by
      obtain ⟨e, member, rfl⟩ := List.mem_map.mp mine
      exact other (inv.owner b pending.allocatable.1 e member).1
  have fields : ∀ y, ((moveToSpillBundle s b spill).bundles y).spillset = (s.bundles y).spillset ∧
      ((moveToSpillBundle s b spill).bundles y).allocation = (s.bundles y).allocation ∧
      ((moveToSpillBundle s b spill).bundles y).minimal = (s.bundles y).minimal := fun y => by
    rw [moveToSpillBundle_bundles apart]; split_ifs <;> subst_vars <;> simp
  have arena : ∀ i, ((moveToSpillBundle s b spill).ranges i).range = (s.ranges i).range ∧
      ((moveToSpillBundle s b spill).ranges i).uses = (s.ranges i).uses ∧
      ((moveToSpillBundle s b spill).ranges i).vreg = (s.ranges i).vreg := fun i => by
    rw [moveToSpillBundle_ranges apart]; split_ifs <;> simp
  have rangeSame : ∀ i, (s.ranges i).bundle ≠ b →
      (moveToSpillBundle s b spill).ranges i = s.ranges i := fun i other => by
    simp [moveToSpillBundle_ranges apart, ownedElsewhere i other]
  obtain ⟨pregs, queue, numBundles, numRanges, spillsets, -⟩ := moveToSpillBundle_frame s b spill
  have allocatable : ∀ y, Allocatable (moveToSpillBundle s b spill) y ↔ Allocatable s y :=
    fun y => by rw [Allocatable, (fields y).1, numBundles, spillsets]; rfl
  have others : ∀ {y}, Allocatable s y → y ≠ b →
      (moveToSpillBundle s b spill).bundles y = s.bundles y := fun {y} allocatable other => by
    have : y ≠ spill := fun same => notAllocatable (same ▸ allocatable)
    simp [moveToSpillBundle_bundles apart, this, other]
  have unallocatedOf : ∀ {y q}, (s.bundles y).allocation = .reg q → y ≠ b := by
    rintro y q assigned rfl; simp [pending.unallocated] at assigned
  refine ⟨⟨by rw [pregs]; exact inv.occupancy.sorted, fun q e member lr valid => ?_⟩,
    fun y q assigned e inRanges => ?_, fun y q assigned => ?_, fun q member => ?_,
    by rw [queue]; exact inv.queueNodup, fun y allocatable' => ?_,
    fun y allocatable' => ?_, fun y bound e member => ?_, fun ss sb found' => ?_⟩
  · rw [pregs] at member
    obtain ⟨assigned, rest⟩ := inv.occupancy.owned q e member lr valid
    rw [rangeSame lr (unallocatedOf assigned),
      others (inv.allocated _ q assigned).1 (unallocatedOf assigned)]
    exact ⟨assigned, rest⟩
  · rw [(fields y).2.1] at assigned
    rw [others (inv.allocated y q assigned).1 (unallocatedOf assigned)] at inRanges
    rw [pregs]; exact inv.recorded y q assigned e inRanges
  · rw [(fields y).2.1] at assigned
    obtain ⟨allocatable', nonempty⟩ := inv.allocated y q assigned
    rw [others allocatable' (unallocatedOf assigned), allocatable]
    exact ⟨allocatable', nonempty⟩
  · rw [queue] at member
    obtain ⟨allocatable', unallocated, nonempty⟩ := inv.queued q member
    have other : q.bundle ≠ b := fun same =>
      pending.dequeued (same ▸ List.mem_map_of_mem _ member)
    rw [others allocatable' other, allocatable]
    exact ⟨allocatable', unallocated, nonempty⟩
  · have allocatable := (allocatable y).mp allocatable'
    by_cases here : y = b
    · subst here
      rw [moveToSpillBundle_bundles apart, if_neg (Ne.symm apart), if_pos rfl]
      exact ⟨⟨KeysSorted.nil, by simp, by simp⟩, by simp⟩
    · rw [others allocatable here]
      obtain ⟨ready, vregs⟩ := inv.ready y allocatable
      exact ⟨ready.congr fun e _ => ⟨(arena _).1, (arena _).2.1⟩,
        fun e member => (arena _).2.2 ▸ vregs e member⟩
  · intro first last head tail
    have allocatable := (allocatable y).mp allocatable'
    by_cases here : y = b
    · subst here
      simp [moveToSpillBundle_bundles apart, Ne.symm apart] at head
    · rw [others allocatable here] at head tail
      simp only [minimalBundle, (fields y).2.2]
      exact inv.flags y allocatable first last head tail
  · rw [numBundles] at bound
    rw [numRanges]
    by_cases isSpill : y = spill
    · subst isSpill
      rw [moveToSpillBundle_bundles apart, if_pos rfl] at member
      rcases List.mem_append.mp member with old | moved
      · obtain ⟨owner, lt⟩ := inv.owner y bound e old
        rw [rangeSame _ (owner ▸ apart)]
        exact ⟨owner, lt⟩
      · simpa [moveToSpillBundle_ranges apart, List.mem_map_of_mem (·.index) moved] using
          (inv.owner b pending.allocatable.1 e moved).2
    · by_cases isB : y = b
      · subst isB
        simp [moveToSpillBundle_bundles apart, Ne.symm apart] at member
      · rw [moveToSpillBundle_bundles apart, if_neg isSpill, if_neg isB] at member
        obtain ⟨owner, lt⟩ := inv.owner y bound e member
        rw [rangeSame _ (owner ▸ isB)]
        exact ⟨owner, lt⟩
  · rw [spillsets] at found'
    rw [numBundles, (fields sb).1]
    exact inv.spillOf ss sb found'

end MoveToSpill

section Split

variable {s s' : Env} {b ss x : Nat}

namespace SplitFrame

theorem untouched (frame : SplitFrame s s' b s.numBundles ss) (kept : x ≠ b)
    (moved : x ≠ s.numBundles) (notSpill : (s'.spillsets ss).spillBundle ≠ some x)
    (bound : x < s'.numBundles) : x < s.numBundles ∧ s'.bundles x = s.bundles x := by
  refine ⟨Nat.lt_of_not_le fun fresh => ?_, frame.bundles x kept moved notSpill⟩
  rcases frame.created x fresh bound with same | spill
  exacts [moved same, notSpill spill]

theorem spillBundle_ne (frame : SplitFrame s s' b s.numBundles ss) (bound : x < s.numBundles)
    (before : (s.spillsets ss).spillBundle ≠ some x) : (s'.spillsets ss).spillBundle ≠ some x := by
  rcases frame.spillsets with same | ⟨-, sb, fresh, updated⟩
  · rwa [same]
  · simp only [updated, Function.update_same, ne_eq, Option.some.injEq]
    omega

theorem spillBundle_eq (frame : SplitFrame s s' b s.numBundles ss) (x : Nat)
    (other : (s'.spillsets ss).spillBundle ≠ some x) (ss' : Nat) :
    (s'.spillsets ss').spillBundle = some x ↔ (s.spillsets ss').spillBundle = some x := by
  rcases frame.spillsets with same | ⟨absent, sb, -, updated⟩
  · rw [same]
  · by_cases here : ss' = ss
    · subst here
      rw [absent]
      simpa using other
    · simp [updated, Function.update_apply, here]

theorem bundles_of_allocatable (frame : SplitFrame s s' b s.numBundles ss)
    (spillOf : ∀ sb, (s.spillsets ss).spillBundle = some sb → (s.bundles sb).spillset = ss)
    (allocatable : Allocatable s x) (kept : x ≠ b) :
    s'.bundles x = s.bundles x :=
  frame.bundles x kept (Nat.ne_of_lt allocatable.1) (frame.spillBundle_ne allocatable.1
    fun found => allocatable.2 (by rw [spillOf x found]; exact found))

theorem allocatable_iff (frame : SplitFrame s s' b s.numBundles ss)
    (spillOf : ∀ sb, (s.spillsets ss).spillBundle = some sb → (s.bundles sb).spillset = ss)
    (kept : x ≠ b) (moved : x ≠ s.numBundles) :
    Allocatable s' x ↔ Allocatable s x := by
  constructor
  · intro allocatable'
    have notSpill : (s'.spillsets ss).spillBundle ≠ some x := fun found =>
      allocatable'.2 (by rw [frame.spillsetOf x found]; exact found)
    obtain ⟨bound, same⟩ := frame.untouched kept moved notSpill allocatable'.1
    refine ⟨bound, fun found => allocatable'.2 ?_⟩
    rw [same]
    exact (frame.spillBundle_eq x notSpill _).mpr found
  · intro allocatable
    have same := frame.bundles_of_allocatable spillOf allocatable kept
    refine ⟨lt_of_lt_of_le allocatable.1 frame.numBundles, fun found => allocatable.2 ?_⟩
    rw [same] at found
    exact (frame.spillBundle_eq x (frame.spillBundle_ne allocatable.1
      fun found => allocatable.2 (by rw [spillOf x found]; exact found)) _).mp found

end SplitFrame

theorem AllocInv.splitReady (inv : AllocInv s) (pending : Pending s b) : SplitReady s b :=
  have bound := pending.allocatable.1
  ⟨(inv.ready b pending.allocatable).1, (inv.ready b pending.allocatable).2,
    fun e member => (inv.owner b bound e member).2, bound, fun sb found =>
      ⟨fun same => pending.allocatable.2 (same ▸ found), (inv.spillOf _ sb found).1⟩⟩

theorem AllocInv.split_ok {ctx : Ctx} (inv : AllocInv s) (pending : Pending s b)
    {splitAt regHint : Nat} (nonMinimal : minimalBundle s b = false)
    (inside : InsideBundle s b splitAt) :
    ∃ s', splitAndRequeueBundle ctx s b splitAt regHint = .ok s' := by
  obtain ⟨first, head⟩ := Option.ne_none_iff_exists'.mp
    (mt List.head?_eq_none_iff.mp pending.nonempty)
  obtain ⟨last, tail⟩ := Option.ne_none_iff_exists'.mp
    (mt List.getLast?_eq_none_iff.mp pending.nonempty)
  obtain ⟨start_le, lt_end⟩ := inside first last head tail
  obtain ⟨s', -, -, -, run, -⟩ := splitAndRequeueBundle_frame (inv.splitReady pending)
    (fun sb found => (inv.spillOf _ sb found).2) head tail
    (inv.flags b pending.allocatable first last head tail ▸ nonMinimal) start_le lt_end
  exact ⟨s', run⟩

/-- A split of a pending, non-minimal bundle at a point inside it cuts at a point strictly
inside it, with the frame of `splitAndRequeueBundle_frame`. -/
theorem AllocInv.splitFrame {ctx : Ctx} (inv : AllocInv s) (pending : Pending s b)
    {splitAt regHint : Nat} (nonMinimal : minimalBundle s b = false)
    (inside : InsideBundle s b splitAt)
    (split : splitAndRequeueBundle ctx s b splitAt regHint = .ok s') :
    ∃ s₃ point added, (∀ first last, (s.bundles b).ranges.head? = some first →
        (s.bundles b).ranges.getLast? = some last →
        first.range.from < point ∧ point < last.range.to) ∧
      SplitInv s s₃ b s.numBundles (s.bundles b).spillset point added ∧
      SplitFrame s s' b s.numBundles (s.bundles b).spillset ∧
      Requeued s₃ s' b s.numBundles regHint := by
  obtain ⟨first, head⟩ := Option.ne_none_iff_exists'.mp
    (mt List.head?_eq_none_iff.mp pending.nonempty)
  obtain ⟨last, tail⟩ := Option.ne_none_iff_exists'.mp
    (mt List.getLast?_eq_none_iff.mp pending.nonempty)
  obtain ⟨start_le, lt_end⟩ := inside first last head tail
  obtain ⟨s'', s₃, point, added, run, after, before, rest⟩ := splitAndRequeueBundle_frame
    (inv.splitReady pending) (fun sb found => (inv.spillOf _ sb found).2) head tail
    (inv.flags b pending.allocatable first last head tail ▸ nonMinimal) start_le lt_end
  obtain rfl := Except.ok.inj (split.symm.trans run)
  refine ⟨s₃, point, added, fun first' last' head' tail' => ?_, rest⟩
  obtain rfl := Option.some.inj (head.symm.trans head')
  obtain rfl := Option.some.inj (tail.symm.trans tail')
  exact ⟨after, before⟩

/-- Splitting a pending, non-minimal bundle at a point inside it keeps the invariant. The
halves are well formed, own their live ranges and are queued when they kept a range; the spill
bundle owns what it gained; no map, no allocation and no other bundle changes. -/
theorem AllocInv.split {ctx : Ctx} (inv : AllocInv s) (pending : Pending s b) {splitAt regHint : Nat}
    (nonMinimal : minimalBundle s b = false) (inside : InsideBundle s b splitAt)
    (split : splitAndRequeueBundle ctx s b splitAt regHint = .ok s') : AllocInv s' := by
  have bound := pending.allocatable.1
  have spillOf := inv.spillOf (s.bundles b).spillset
  have spillOf' := fun sb found => (spillOf sb found).2
  obtain ⟨s₃, point, added, -, halves, frame, requeued⟩ :=
    inv.splitFrame pending nonMinimal inside split
  have pregs : s'.pregs = s.pregs := requeued.pregs.trans halves.pregs
  have unallocatedOf : ∀ {y q}, (s.bundles y).allocation = .reg q → y ≠ b := by
    rintro y q assigned rfl; simp [pending.unallocated] at assigned
  have allocatedOld : ∀ {y q}, (s'.bundles y).allocation = .reg q →
      (s.bundles y).allocation = .reg q := fun {y q} assigned => by
    rcases frame.allocation y with same | none
    · rwa [same] at assigned
    · rw [none] at assigned; cases assigned
  have keeps : ∀ {y}, Allocatable s y → y ≠ b → s'.bundles y = s.bundles y :=
    frame.bundles_of_allocatable spillOf'
  have rangeSame : ∀ lr < s.numRanges, (s.ranges lr).bundle ≠ b → s'.ranges lr = s.ranges lr :=
    fun lr lt other => frame.ranges lr lt fun mine => other (by
      obtain ⟨e, member, rfl⟩ := List.mem_map.mp mine
      exact (inv.owner b bound e member).1)
  have halvesSpillset : ∀ y ∈ [b, s.numBundles], (s'.bundles y).spillset = (s.bundles b).spillset :=
    fun y member => (requeued.fields y).2.1.trans (by
      rcases List.mem_pair.mp member with rfl | rfl
      exacts [halves.spillsets.1, halves.spillsets.2])
  have halvesAllocatable : ∀ y ∈ [b, s.numBundles],
      Allocatable s' y ∧ (s'.bundles y).allocation = .none := by
    intro y member
    have apart := halves.apart
    refine ⟨⟨?_, ?_⟩, ?_⟩
    · rw [requeued.numBundles]
      rcases List.mem_pair.mp member with rfl | rfl
      exacts [apart.2.1, apart.2.2]
    · rw [halvesSpillset y member, requeued.spillsets]
      intro found
      have := halves.spillApart y found
      rcases List.mem_pair.mp member with rfl | rfl
      exacts [this.1 rfl, this.2.1 rfl]
    · rcases List.mem_pair.mp member with rfl | rfl
      · rcases frame.allocation y with same | none
        · rw [same]; exact pending.unallocated
        · exact none
      · exact frame.fresh _ le_rfl (by rw [requeued.numBundles]; exact apart.2.2)
  refine ⟨⟨by rw [pregs]; exact inv.occupancy.sorted, fun q e member lr valid => ?_⟩,
    fun y q assigned e inRanges => ?_, fun y q assigned => ?_, fun q member => ?_, ?_,
    fun y allocatable' => ?_, fun y allocatable' => ?_, fun y bound' e member => ?_,
    fun ss sb found => ?_⟩
  · rw [pregs] at member
    obtain ⟨assigned, entry, inRanges, index, key⟩ := inv.occupancy.owned q e member lr valid
    have allocatable := (inv.allocated _ q assigned).1
    have other := unallocatedOf assigned
    rw [rangeSame lr (index ▸ (inv.owner _ allocatable.1 entry inRanges).2) other,
      keeps allocatable other]
    exact ⟨assigned, entry, inRanges, index, key⟩
  · have old := allocatedOld assigned
    rw [keeps (inv.allocated y q old).1 (unallocatedOf old)] at inRanges
    rw [pregs]
    exact inv.recorded y q old e inRanges
  · have old := allocatedOld assigned
    obtain ⟨allocatable, nonempty⟩ := inv.allocated y q old
    have other := unallocatedOf old
    rw [keeps allocatable other]
    exact ⟨(frame.allocatable_iff spillOf' other (Nat.ne_of_lt allocatable.1)).mpr allocatable,
      nonempty⟩
  · rw [requeued.queue, halves.queue] at member
    rcases List.mem_append.mp member with old | new
    · obtain ⟨allocatable, unallocated, nonempty⟩ := inv.queued q old
      have other : q.bundle ≠ b := fun same =>
        pending.dequeued (same ▸ List.mem_map_of_mem _ old)
      rw [keeps allocatable other]
      exact ⟨(frame.allocatable_iff spillOf' other (Nat.ne_of_lt allocatable.1)).mpr allocatable,
        unallocated, nonempty⟩
    · obtain ⟨y, kept, rfl⟩ := List.mem_map.mp new
      obtain ⟨member, nonempty⟩ := List.mem_filter.mp kept
      exact ⟨(halvesAllocatable y member).1, (halvesAllocatable y member).2,
        by simpa using nonempty⟩
  · rw [requeued.queue, halves.queue, List.map_append, List.map_map]
    refine inv.queueNodup.append ?_ fun y old new => ?_
    · simpa [Function.comp_def] using
        (List.nodup_cons.mpr ⟨by simpa using halves.apart.1, List.nodup_singleton _⟩).filter _
    · simp only [Function.comp_def, List.map_id', List.mem_filter] at new
      rcases List.mem_pair.mp new.1 with rfl | rfl
      · exact pending.dequeued old
      · obtain ⟨q, queued, same⟩ := List.mem_map.mp old
        exact Nat.lt_irrefl _ (same ▸ (inv.queued q queued).1.1)
  · by_cases isB : y = b
    · subst isB
      rw [(requeued.fields y).1, requeued.ranges]
      exact ⟨halves.kept.congr fun _ _ => by rw [requeued.ranges]; exact ⟨rfl, rfl⟩,
        fun e member => halves.vregs e (List.mem_append_left _ member)⟩
    by_cases isN : y = s.numBundles
    · subst isN
      rw [(requeued.fields _).1, requeued.ranges]
      exact ⟨halves.moved.congr fun _ _ => by rw [requeued.ranges]; exact ⟨rfl, rfl⟩,
        fun e member => halves.vregs e (List.mem_append_right _ member)⟩
    have allocatable := (frame.allocatable_iff spillOf' isB isN).mp allocatable'
    rw [keeps allocatable isB]
    obtain ⟨ready, vregs⟩ := inv.ready y allocatable
    have same : ∀ e ∈ (s.bundles y).ranges, s'.ranges e.index = s.ranges e.index :=
      fun e member => by
        obtain ⟨owner, lt⟩ := inv.owner y allocatable.1 e member
        exact rangeSame _ lt (owner ▸ isB)
    exact ⟨ready.congr fun e member => by rw [same e member]; exact ⟨rfl, rfl⟩,
      fun e member => by rw [same e member]; exact vregs e member⟩
  · intro first' last' head' tail'
    by_cases half : y ∈ [b, s.numBundles]
    · rw [requeued.flags y half first' last' head' tail']
      have member : first' ∈ (s₃.bundles b).ranges ++ (s₃.bundles s.numBundles).ranges := by
        have := List.mem_of_mem_head? head'
        rw [(requeued.fields y).1] at this
        rcases List.mem_pair.mp half with rfl | rfl
        exacts [List.mem_append_left _ this, List.mem_append_right _ this]
      obtain ⟨v, vreg⟩ := Option.isSome_iff_exists.mp (halves.vregs first' member)
      simp [bundleFlags, requeued.ranges, vreg]
    · have isB : y ≠ b := fun same => half (by simp [same])
      have isN : y ≠ s.numBundles := fun same => half (by simp [same])
      have allocatable := (frame.allocatable_iff spillOf' isB isN).mp allocatable'
      rw [keeps allocatable isB] at head' tail'
      simp only [minimalBundle, keeps allocatable isB]
      exact inv.flags y allocatable first' last' head' tail'
  · have pieces : ∀ e ∈ splitPieces s₃ b s.numBundles added,
        (s'.ranges e.index).bundle = (s₃.ranges e.index).bundle ∧ e.index < s'.numRanges :=
      fun e member => by
        rw [requeued.ranges, requeued.numRanges]; exact ⟨rfl, halves.inArena e member⟩
    by_cases isB : y = b
    · subst isB
      obtain ⟨e', mine, same⟩ := List.mem_map.mp (frame.keptFrom e member)
      rw [(requeued.fields y).1] at member
      obtain ⟨owner, lt⟩ := pieces e (by simp [splitPieces, member])
      rw [owner, halves.keptOwner e member, ← same]
      exact ⟨(inv.owner y bound e' mine).1, same ▸ lt⟩
    by_cases isN : y = s.numBundles
    · subst isN
      rw [(requeued.fields _).1] at member
      obtain ⟨owner, lt⟩ := pieces e (by simp [splitPieces, member])
      exact ⟨owner.trans (halves.movedOwner e member), lt⟩
    by_cases isSpill : (s'.spillsets (s.bundles b).spillset).spillBundle = some y
    · have spill₃ := requeued.spillsets ▸ isSpill
      rw [(requeued.fields y).1, ← spillRanges_of_some spill₃, halves.spilled] at member
      rcases List.mem_append.mp member with old | new
      · have old' : (s.spillsets (s.bundles b).spillset).spillBundle = some y := by
          cases before : (s.spillsets (s.bundles b).spillset).spillBundle with
          | none => simp [spillRanges, before] at old
          | some sb₀ =>
            rcases frame.spillsets with same | ⟨absent, -⟩
            · rw [same, before] at isSpill; rw [isSpill]
            · rw [absent] at before; cases before
        rw [spillRanges_of_some old'] at old
        obtain ⟨owner, lt⟩ := inv.owner y (spillOf y old').1 e old
        rw [rangeSame _ lt (owner ▸ isB)]
        exact ⟨owner, lt_of_lt_of_le lt frame.numRanges⟩
      · obtain ⟨owner, lt⟩ := pieces e (by simp [splitPieces, new])
        exact ⟨owner.trans (halves.addedOwner e new y spill₃), lt⟩
    · obtain ⟨yBound, same⟩ := frame.untouched isB isN isSpill bound'
      rw [same] at member
      obtain ⟨owner, lt⟩ := inv.owner y yBound e member
      rw [rangeSame _ lt (owner ▸ isB)]
      exact ⟨owner, lt_of_lt_of_le lt frame.numRanges⟩
  · by_cases here : ss = (s.bundles b).spillset
    · subst here
      rw [requeued.numBundles]
      exact ⟨(halves.spillApart sb (requeued.spillsets ▸ found)).2.2, frame.spillsetOf sb found⟩
    have found' : (s.spillsets ss).spillBundle = some sb := by
      rcases frame.spillsets with same | ⟨-, sb', -, updated⟩
      · rwa [same] at found
      · simpa [updated, Function.update_apply, here] using found
    obtain ⟨sbBound, sbSet⟩ := inv.spillOf ss sb found'
    have sbB : sb ≠ b := by rintro rfl; exact here sbSet.symm
    have sbSpill := frame.spillBundle_ne sbBound fun spill => here (sbSet.symm.trans
      (spillOf sb spill).2)
    obtain ⟨-, sbSame⟩ := frame.untouched sbB (Nat.ne_of_lt sbBound) sbSpill
      (lt_of_lt_of_le sbBound frame.numBundles)
    rw [sbSame]
    exact ⟨lt_of_lt_of_le sbBound frame.numBundles, sbSet⟩

end Split

section Run

variable {ctx : Ctx} {s s' : Env} {b : Nat}

theorem AllocInv.probeDone (inv : AllocInv s) (pending : Pending s b)
    (done : ProbeDone ctx s b s') : AllocInv s' := by
  cases done with
  | split nonMinimal inside split => exact inv.split pending nonMinimal inside split
  | allocated _ free => exact (inv.assign pending free).updateSpillSet rfl

theorem AllocInv.attemptDone (inv : AllocInv s) (pending : Pending s b)
    (done : AttemptDone ctx s b s') : AllocInv s' := by
  cases done with
  | probed done => exact inv.probeDone pending done
  | required => exact inv.updateSpillSet rfl
  | spilled => exact inv.congr rfl rfl rfl rfl (fun _ => rfl) rfl rfl

theorem AllocInv.processed (inv : AllocInv s) (pending : Pending s b)
    (processed : Processed ctx s b s') : AllocInv s' := by
  cases processed with
  | attempt done => exact inv.attemptDone pending done
  | retry _ _ done =>
    obtain ⟨inv', pending'⟩ := evictAll_inv _ s inv pending
    exact inv'.probeDone pending' done
  | moveToSpill found => exact inv.moveToSpill pending found

theorem AllocInv.dequeue (inv : AllocInv s) {entry : PrioQueueEntry}
    (queued : entry ∈ s.allocationQueue) :
    AllocInv { s with allocationQueue := s.allocationQueue.erase entry } ∧
      Pending { s with allocationQueue := s.allocationQueue.erase entry } entry.bundle := by
  have rest := (List.perm_cons_erase queued).map (·.bundle)
  have nodup := List.nodup_cons.mp (rest.nodup_iff.mp inv.queueNodup)
  obtain ⟨allocatable, unallocated, nonempty⟩ := inv.queued entry queued
  refine ⟨inv.ofShape ⟨rfl, rfl, rfl, fun _ => rfl, fun _ => ⟨rfl, rfl, rfl⟩⟩
    ⟨inv.occupancy.sorted, inv.occupancy.owned⟩ inv.recorded inv.allocated (fun q member => inv.queued q (List.mem_of_mem_erase member))
    nodup.2, ⟨allocatable, unallocated, nonempty, nodup.1⟩⟩

theorem AllocInv.outcome (cfg : CfgWellFormed ctx) (contract : ConflictsInside ctx)
    (inv : AllocInv s) (pending : Pending s b) {limit : Option Nat → Option Nat → Option Nat}
    {regHint : Nat} (processed : processBundleWith ctx limit s b regHint = .ok s') :
    Processed ctx s b s' :=
  processBundleWith_processed cfg contract (inv.ready b pending.allocatable).1
    (inv.flags b pending.allocatable) pending.nonempty processed

theorem AllocInv.step (cfg : CfgWellFormed ctx) (contract : ConflictsInside ctx)
    (inv : AllocInv s) (step : Step ctx s s') : AllocInv s' := by
  obtain ⟨queued, processed⟩ := step
  obtain ⟨inv₀, pending⟩ := inv.dequeue queued
  exact inv₀.processed pending (inv₀.outcome cfg contract pending processed)

end Run

end IonRegalloc
