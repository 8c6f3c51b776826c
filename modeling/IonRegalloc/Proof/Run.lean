import IonRegalloc.Proof.Invariant

/-! Whole runs of `process_bundles`: the fuelled loop is a run of `Step`, `AllocInv` holds along
it, and the safety of the PReg maps follows. -/

namespace IonRegalloc

open AllocMap

section Queue

theorem foldl_pick {α : Type} (f : Option α → α → Option α)
    (pick : ∀ best a, f best a = some a ∨ f best a = best) :
    ∀ (l : List α) (best : Option α) (e : α), l.foldl f best = some e → best = some e ∨ e ∈ l
  | [], _, _, found => .inl found
  | a :: rest, best, e, found => by
    rcases foldl_pick f pick rest _ e found with here | later
    · rcases pick best a with picked | kept
      · exact .inr (by rw [picked] at here; simp [Option.some.inj here])
      · exact .inl (kept ▸ here)
    · exact .inr (List.mem_cons_of_mem _ later)

theorem pickHigher_pick (best : Option PrioQueueEntry) (a : PrioQueueEntry) :
    pickHigher best a = some a ∨ pickHigher best a = best := by
  cases best with
  | none => exact .inl rfl
  | some b => by_cases lower : b.prio < a.prio <;> simp [pickHigher, lower]

theorem foldl_pickHigher_ne_none : ∀ (l : List PrioQueueEntry) (best : Option PrioQueueEntry),
    l.foldl pickHigher best = none → best = none ∧ l = []
  | [], _, found => ⟨found, rfl⟩
  | a :: rest, best, found => by
    have := (foldl_pickHigher_ne_none rest _ found).1
    cases best with
    | none => cases this
    | some b => simp only [pickHigher] at this; split_ifs at this

theorem popQueue_some {queue rest : List PrioQueueEntry} {entry : PrioQueueEntry}
    (popped : popQueue queue = some (entry, rest)) : entry ∈ queue ∧ rest = queue.erase entry := by
  unfold popQueue at popped
  split at popped
  · cases popped
  · rename_i e found
    simp only [Option.some.injEq, Prod.mk.injEq] at popped
    obtain ⟨rfl, rfl⟩ := popped
    exact ⟨(foldl_pick _ pickHigher_pick queue none _ found).resolve_left (by simp), rfl⟩

theorem popQueue_none {queue : List PrioQueueEntry} (empty : popQueue queue = none) : queue = [] := by
  unfold popQueue at empty
  split at empty
  · exact (foldl_pickHigher_ne_none _ _ ‹_›).2
  · cases empty

end Queue

section Runs

variable {ctx : Ctx}

/-- `process_bundles` with enough fuel is a run of `Step` that ends with an empty queue: each
iteration pops some queued entry and processes its bundle. -/
theorem processBundles_run : ∀ (fuel : Nat) (s s' : Env), processBundles ctx fuel s = .ok s' →
    Reachable ctx s s' ∧ s'.allocationQueue = []
  | 0, _, _, run => by cases run
  | fuel + 1, s, s', run => by
    unfold processBundles at run
    split at run
    · cases run
      exact ⟨.refl, popQueue_none ‹_›⟩
    · rename_i entry queue popped
      obtain ⟨queued, rfl⟩ := popQueue_some popped
      split at run
      · cases run
      · rename_i s₁ processed
        obtain ⟨reach, empty⟩ := processBundles_run fuel s₁ s' run
        exact ⟨.head (Step.process queued processed) reach, empty⟩

variable {s s' : Env}

/-- The run invariant: every state a run of `process_bundles` reaches from one satisfying
`AllocInv` satisfies it, under the contracts of the CFG and of `compute_requirement`. -/
theorem AllocInv.reachable (cfg : CfgWellFormed ctx) (contract : ConflictsInside ctx)
    (inv : AllocInv s) (reach : Reachable ctx s s') : AllocInv s' := by
  induction reach with
  | refl => exact inv
  | tail _ step reached => exact reached.step cfg contract step

end Runs

section Safety

variable {s : Env}

theorem AllocInv.valid_iff (inv : AllocInv s) (p lr : Nat) (key : LiveRangeKey) :
    (key, some lr) ∈ (s.pregs p).allocations ↔ ∃ x, (s.bundles x).allocation = .reg p ∧
      ∃ e ∈ (s.bundles x).ranges, e.index = lr ∧ LiveRangeKey.fromRange e.range = key := by
  constructor
  · intro member
    exact ⟨_, inv.occupancy.owned p _ member lr rfl⟩
  · rintro ⟨x, assigned, e, member, rfl, rfl⟩
    exact inv.recorded x p assigned e member

theorem AllocInv.disjoint (inv : AllocInv s) {x y p : Nat}
    (assignedX : (s.bundles x).allocation = .reg p) (assignedY : (s.bundles y).allocation = .reg p)
    {e f : LiveRangeListEntry} (inX : e ∈ (s.bundles x).ranges) (inY : f ∈ (s.bundles y).ranges)
    (distinct : e.index ≠ f.index) :
    ¬ (LiveRangeKey.fromRange e.range).Overlaps (LiveRangeKey.fromRange f.range) := fun overlap =>
  distinct (by
    have same := KeysSorted.eq_of_overlaps (inv.occupancy.sorted p) (inv.recorded x p assignedX e inX)
      (inv.recorded y p assignedY f inY) overlap
    exact (by simpa using same : _ ∧ _).2)

theorem AllocInv.clear_of_fixed (inv : AllocInv s) {x p : Nat}
    (assigned : (s.bundles x).allocation = .reg p) {e : LiveRangeListEntry}
    (inX : e ∈ (s.bundles x).ranges) {key : LiveRangeKey}
    (fixed : (key, none) ∈ (s.pregs p).allocations) :
    ¬ (LiveRangeKey.fromRange e.range).Overlaps key := fun overlap => by
  have same := KeysSorted.eq_of_overlaps (inv.occupancy.sorted p) (inv.recorded x p assigned e inX)
    fixed overlap
  simp at same

theorem AllocInv.spillBundle_idle (inv : AllocInv s) {ss sb : Nat}
    (spill : (s.spillsets ss).spillBundle = some sb) :
    sb ∉ s.allocationQueue.map (·.bundle) ∧ ∀ p, (s.bundles sb).allocation ≠ .reg p := by
  have notAllocatable : ¬ Allocatable s sb := fun allocatable =>
    allocatable.2 (by rw [(inv.spillOf ss sb spill).2]; exact spill)
  refine ⟨fun queued => ?_, fun p assigned => notAllocatable (inv.allocated sb p assigned).1⟩
  obtain ⟨q, member, same⟩ := List.mem_map.mp queued
  exact notAllocatable (same ▸ (inv.queued q member).1)

end Safety

section Fixed

variable {ctx : Ctx} {s s' s'' : Env} {b : Nat}

/-- Two states whose registers hold the same fixed reservations. -/
def SameFixed (s s' : Env) : Prop :=
  ∀ p key, (key, none) ∈ (s'.pregs p).allocations ↔ (key, none) ∈ (s.pregs p).allocations

theorem SameFixed.trans (first : SameFixed s s') (second : SameFixed s' s'') : SameFixed s s'' :=
  fun p key => (second p key).trans (first p key)

theorem SameFixed.of_pregs (same : s'.pregs = s.pregs) : SameFixed s s' :=
  fun p key => by rw [same]

theorem AllocInv.evictBundle_fixed (inv : AllocInv s) (x : Nat) :
    SameFixed s (IonRegalloc.evictBundle ctx s x) := by
  cases allocated : (s.bundles x).allocation with
  | reg q =>
    intro p key
    rw [evictBundle_of_reg allocated]
    by_cases here : p = q
    · subst here
      simp only [Env.enqueue_pregs, Env.updatePReg_pregs, if_true, Env.updateBundle_pregs]
      exact ⟨fun member => (removeRanges_sublist _ _).subset member, fun member =>
        mem_removeRanges (inv.occupancy.sorted p)
          (inv.ready x (inv.allocated x p allocated).1).1.sorted (inv.recorded x p allocated)
          member (by simp [bundleEntries])⟩
    · simp [here]
  | _ => exact SameFixed.of_pregs (by simp [IonRegalloc.evictBundle, allocated, Allocation.asReg])

theorem evictAll_fixed : ∀ (bundles : List Nat) (s : Env), AllocInv s →
    SameFixed s (evictAll ctx s bundles)
  | [], _, _ => SameFixed.of_pregs rfl
  | x :: rest, _, inv =>
    (inv.evictBundle_fixed x).trans (evictAll_fixed rest _ (inv.evictBundle x))

theorem AllocInv.assign_fixed (inv : AllocInv s) (pending : Pending s b) {reg : Nat}
    {c : Option Nat}
    (free : tryToAllocateBundleToReg s b reg c = .ok (.allocated (.reg reg), assignBundle s b reg)) :
    SameFixed s (assignBundle s b reg) := by
  intro p key
  by_cases here : p = reg
  · subst here
    simp only [assignBundle, Env.updatePReg_pregs, if_true, Env.updateBundle_pregs]
    rw [(inv.assign_entries pending free).2.mem_iff, List.mem_append]
    simp [bundleEntries]
  · simp [assignBundle, here]

theorem AllocInv.probeDone_fixed (inv : AllocInv s) (pending : Pending s b)
    (done : ProbeDone ctx s b s') : SameFixed s s' := by
  cases done with
  | split nonMinimal inside split =>
    obtain ⟨s₃, point, added, -, halves, -, requeued⟩ := inv.splitFrame pending nonMinimal inside split
    exact SameFixed.of_pregs (requeued.pregs.trans halves.pregs)
  | allocated _ free => exact (inv.assign_fixed pending free).trans (SameFixed.of_pregs rfl)

theorem AllocInv.processed_fixed (inv : AllocInv s) (pending : Pending s b)
    (processed : Processed ctx s b s') : SameFixed s s' := by
  cases processed with
  | attempt done =>
    cases done with
    | probed done => exact inv.probeDone_fixed pending done
    | required | spilled => exact SameFixed.of_pregs rfl
  | retry _ _ done =>
    obtain ⟨inv', pending'⟩ := evictAll_inv _ s inv pending
    exact (evictAll_fixed _ s inv).trans (inv'.probeDone_fixed pending' done)
  | moveToSpill found => exact SameFixed.of_pregs (moveToSpillBundle_frame s b _).1

theorem AllocInv.step_fixed (cfg : CfgWellFormed ctx) (contract : ConflictsInside ctx)
    (inv : AllocInv s) (step : Step ctx s s') : SameFixed s s' := by
  obtain ⟨queued, processed⟩ := step
  obtain ⟨inv₀, pending⟩ := inv.dequeue queued
  exact (SameFixed.of_pregs rfl).trans (inv₀.processed_fixed pending
    (inv₀.outcome cfg contract pending processed))

end Fixed

section Example

/-- Bundle 0 holds VReg 0 over `[0, 8)`, with uses fixed to PReg 0 at points 1 and 4 and to PReg 1
at point 6, and waits in the queue; bundle 1 holds VReg 1 over `[4, 8)` in PReg 1. -/
def conflictExample : Env where
  ranges
    | 0 => ⟨⟨0, 8⟩, some 0, 0, [⟨1, ⟨.Def, .fixedReg 0⟩, 100⟩, ⟨4, ⟨.Use, .fixedReg 0⟩, 100⟩,
        ⟨6, ⟨.Use, .fixedReg 1⟩, 100⟩], 300, false⟩
    | 1 => ⟨⟨4, 8⟩, some 1, 1, [], 0, false⟩
    | _ => default
  numRanges := 2
  bundles
    | 0 => ⟨[⟨⟨0, 8⟩, 0⟩], 0, .none, 8, 37, false, true, false⟩
    | 1 => ⟨[⟨⟨4, 8⟩, 1⟩], 1, .reg 1, 4, 10, false, false, false⟩
    | _ => default
  numBundles := 2
  spillsets _ := ⟨0, 0, false, none⟩
  vregs
    | 0 => ⟨[⟨⟨0, 8⟩, 0⟩]⟩
    | 1 => ⟨[⟨⟨4, 8⟩, 1⟩]⟩
    | _ => default
  pregs
    | 1 => ⟨[(⟨4, 8⟩, some 1)], false⟩
    | _ => default
  allocationQueue := [⟨8, 0, 99⟩]
  spilledBundles := []

/-- Where `process_bundles` takes the example: bundle 0's requirement conflicts at point 6 and the
split leaves `[0, 6)` in it and `[6, 8)` in a new bundle 2. Bundle 0 takes PReg 0; bundle 2,
fixed to PReg 1, evicts the lighter bundle 1 there; bundle 1 then meets heavier bundles in both
registers, is split at point 6, and both halves go to its spill bundle 4. -/
def conflictExampleDone : Env :=
  (processBundles fixedCtx 5 conflictExample).toOption.getD conflictExample

theorem conflictExample_run : processBundles fixedCtx 5 conflictExample = .ok conflictExampleDone := by
  have returns : (processBundles fixedCtx 5 conflictExample).isOk = true := by decide
  unfold conflictExampleDone
  generalize processBundles fixedCtx 5 conflictExample = result at returns ⊢
  cases result <;> simp_all [Except.isOk, Except.toBool, Except.toOption]

example : fixedCtx.computeRequirement conflictExample 0 = .error 6 ∧
    ((conflictExampleDone.bundles 0).allocation, (conflictExampleDone.bundles 1).ranges,
      (conflictExampleDone.bundles 2).allocation, (conflictExampleDone.bundles 4).ranges,
      conflictExampleDone.spilledBundles) =
      (.reg 0, [], .reg 1, [⟨⟨4, 6⟩, 1⟩, ⟨⟨6, 8⟩, 3⟩], [4]) :=
  ⟨rfl, by decide⟩

theorem conflictExample_allocInv : AllocInv conflictExample where
  occupancy := ⟨fun p => by match p with
      | 1 => decide
      | 0 | _ + 2 => exact KeysSorted.nil,
    fun p e member lr valid => by
      match p with
      | 1 =>
        simp only [conflictExample, List.mem_singleton] at member
        subst member
        cases valid
        exact ⟨rfl, _, List.mem_singleton_self _, rfl, rfl⟩
      | 0 | _ + 2 => exact absurd member (List.not_mem_nil _)⟩
  recorded x p assigned e member := by
    match x with
    | 1 =>
      simp only [conflictExample, Allocation.reg.injEq, List.mem_singleton] at assigned member
      subst assigned member
      decide
    | 0 | _ + 2 => simp [conflictExample] at assigned
  allocated x p assigned := by
    match x with
    | 1 => exact ⟨by decide, by simp [conflictExample]⟩
    | 0 | _ + 2 => simp [conflictExample] at assigned
  queued q member := by
    simp only [conflictExample, List.mem_singleton] at member
    subst member
    exact ⟨by decide, rfl, by simp [conflictExample]⟩
  queueNodup := by decide
  ready x allocatable := by
    obtain rfl | rfl : x = 0 ∨ x = 1 := by have : x < 2 := allocatable.1; omega
    all_goals decide
  flags x allocatable first last head tail := by
    obtain rfl | rfl : x = 0 ∨ x = 1 := by have : x < 2 := allocatable.1; omega
    all_goals
      simp only [conflictExample, List.head?_cons, List.getLast?_singleton, Option.some.injEq]
        at head tail
      subst head tail
      decide
  owner x bound e member := by
    obtain rfl | rfl : x = 0 ∨ x = 1 := by change x < 2 at bound; omega
    all_goals
      simp only [conflictExample, List.mem_singleton] at member
      subst member
      decide
  spillOf ss sb found := by simp [conflictExample] at found

theorem conflictExample_reaches : Reachable fixedCtx conflictExample conflictExampleDone :=
  (processBundles_run 5 _ _ conflictExample_run).1

end Example

section Results

variable {ctx : Ctx} {s s' : Env}

/-- In every state a run reaches, each PReg map is sorted, its valid entries are exactly the
entries of the ranges of the bundles assigned to that register, and a bundle assigned to no
register has no live range in any map. -/
theorem reachable_maps_exact (cfg : CfgWellFormed ctx) (contract : ConflictsInside ctx)
    (inv : AllocInv s) (reach : Reachable ctx s s') :
    (∀ p, Sorted (s'.pregs p).allocations) ∧
    (∀ p lr key, (key, some lr) ∈ (s'.pregs p).allocations ↔
      ∃ x, (s'.bundles x).allocation = .reg p ∧
        ∃ e ∈ (s'.bundles x).ranges, e.index = lr ∧ LiveRangeKey.fromRange e.range = key) ∧
    (∀ x < s'.numBundles, (∀ p, (s'.bundles x).allocation ≠ .reg p) →
      ∀ e ∈ (s'.bundles x).ranges, ∀ p key, (key, some e.index) ∉ (s'.pregs p).allocations) := by
  have inv' := inv.reachable cfg contract reach
  refine ⟨inv'.occupancy.sorted, inv'.valid_iff, fun x bound unassigned e member p key found => ?_⟩
  have owned := (inv'.occupancy.owned p _ found e.index rfl).1
  rw [(inv'.owner x bound e member).1] at owned
  exact unassigned p owned

theorem conflictExample_maps_exact :
    CfgWellFormed fixedCtx ∧ ConflictsInside fixedCtx ∧ AllocInv conflictExample ∧
      Reachable fixedCtx conflictExample conflictExampleDone ∧
      ((∀ p, Sorted (conflictExampleDone.pregs p).allocations) ∧
      (∀ p lr key, (key, some lr) ∈ (conflictExampleDone.pregs p).allocations ↔
        ∃ x, (conflictExampleDone.bundles x).allocation = .reg p ∧
          ∃ e ∈ (conflictExampleDone.bundles x).ranges, e.index = lr ∧
            LiveRangeKey.fromRange e.range = key) ∧
      (∀ x < conflictExampleDone.numBundles, (∀ p, (conflictExampleDone.bundles x).allocation ≠ .reg p) →
        ∀ e ∈ (conflictExampleDone.bundles x).ranges, ∀ p key,
          (key, some e.index) ∉ (conflictExampleDone.pregs p).allocations)) :=
  ⟨fixedCtx_cfgWellFormed, fixedCtx_conflictsInside, conflictExample_allocInv, conflictExample_reaches,
    reachable_maps_exact fixedCtx_cfgWellFormed fixedCtx_conflictsInside conflictExample_allocInv
      conflictExample_reaches⟩

/-- The safety of register assignment over whole runs: in every reachable state, two distinct
live ranges assigned to one register never overlap, and no live range assigned to a register
overlaps a fixed reservation of it. -/
theorem reachable_assignments_disjoint (cfg : CfgWellFormed ctx) (contract : ConflictsInside ctx)
    (inv : AllocInv s) (reach : Reachable ctx s s') :
    (∀ x y p, (s'.bundles x).allocation = .reg p → (s'.bundles y).allocation = .reg p →
      ∀ e ∈ (s'.bundles x).ranges, ∀ f ∈ (s'.bundles y).ranges, e.index ≠ f.index →
        ¬ (LiveRangeKey.fromRange e.range).Overlaps (LiveRangeKey.fromRange f.range)) ∧
    (∀ x p, (s'.bundles x).allocation = .reg p → ∀ e ∈ (s'.bundles x).ranges,
      ∀ key, (key, none) ∈ (s'.pregs p).allocations →
        ¬ (LiveRangeKey.fromRange e.range).Overlaps key) := by
  have inv' := inv.reachable cfg contract reach
  exact ⟨fun x y p assignedX assignedY e inX f inY distinct =>
      inv'.disjoint assignedX assignedY inX inY distinct,
    fun x p assigned e inX key fixed => inv'.clear_of_fixed assigned inX fixed⟩

theorem conflictExample_assignments_disjoint :
    CfgWellFormed fixedCtx ∧ ConflictsInside fixedCtx ∧ AllocInv conflictExample ∧
      Reachable fixedCtx conflictExample conflictExampleDone ∧
      ((∀ x y p, (conflictExampleDone.bundles x).allocation = .reg p →
        (conflictExampleDone.bundles y).allocation = .reg p →
        ∀ e ∈ (conflictExampleDone.bundles x).ranges, ∀ f ∈ (conflictExampleDone.bundles y).ranges,
          e.index ≠ f.index →
          ¬ (LiveRangeKey.fromRange e.range).Overlaps (LiveRangeKey.fromRange f.range)) ∧
      (∀ x p, (conflictExampleDone.bundles x).allocation = .reg p →
        ∀ e ∈ (conflictExampleDone.bundles x).ranges, ∀ key,
          (key, none) ∈ (conflictExampleDone.pregs p).allocations →
          ¬ (LiveRangeKey.fromRange e.range).Overlaps key)) :=
  ⟨fixedCtx_cfgWellFormed, fixedCtx_conflictsInside, conflictExample_allocInv, conflictExample_reaches,
    reachable_assignments_disjoint fixedCtx_cfgWellFormed fixedCtx_conflictsInside
      conflictExample_allocInv conflictExample_reaches⟩

/-- A run never adds, moves or drops a fixed reservation: every register holds in every
reachable state exactly the fixed reservations it started with. -/
theorem reachable_fixed_reservations (cfg : CfgWellFormed ctx) (contract : ConflictsInside ctx)
    (inv : AllocInv s) (reach : Reachable ctx s s') :
    ∀ p key, (key, none) ∈ (s'.pregs p).allocations ↔ (key, none) ∈ (s.pregs p).allocations := by
  induction reach with
  | refl => exact fun _ _ => Iff.rfl
  | tail reach step same =>
    exact SameFixed.trans same ((inv.reachable cfg contract reach).step_fixed cfg contract step)

theorem conflictExample_fixed_reservations :
    CfgWellFormed fixedCtx ∧ ConflictsInside fixedCtx ∧ AllocInv conflictExample ∧
      Reachable fixedCtx conflictExample conflictExampleDone ∧
      ∀ p key, (key, none) ∈ (conflictExampleDone.pregs p).allocations ↔
        (key, none) ∈ (conflictExample.pregs p).allocations :=
  ⟨fixedCtx_cfgWellFormed, fixedCtx_conflictsInside, conflictExample_allocInv, conflictExample_reaches,
    reachable_fixed_reservations fixedCtx_cfgWellFormed fixedCtx_conflictsInside
      conflictExample_allocInv conflictExample_reaches⟩

/-- The queue and spill-bundle discipline over whole runs: no bundle is queued twice; a queued
bundle is unallocated, has ranges and is no spillset's spill bundle; a spill bundle belongs to
the spillset naming it and is never assigned to a register. -/
theorem reachable_queue_discipline (cfg : CfgWellFormed ctx) (contract : ConflictsInside ctx)
    (inv : AllocInv s) (reach : Reachable ctx s s') :
    (s'.allocationQueue.map (·.bundle)).Nodup ∧
    (∀ q ∈ s'.allocationQueue, (s'.bundles q.bundle).allocation = .none ∧
      (s'.bundles q.bundle).ranges ≠ [] ∧ ∀ ss, (s'.spillsets ss).spillBundle ≠ some q.bundle) ∧
    (∀ ss sb, (s'.spillsets ss).spillBundle = some sb →
      (s'.bundles sb).spillset = ss ∧ ∀ p, (s'.bundles sb).allocation ≠ .reg p) := by
  have inv' := inv.reachable cfg contract reach
  refine ⟨inv'.queueNodup, fun q member => ⟨(inv'.queued q member).2.1,
    (inv'.queued q member).2.2, fun ss spill => ?_⟩, fun ss sb spill =>
      ⟨(inv'.spillOf ss sb spill).2, (inv'.spillBundle_idle spill).2⟩⟩
  exact (inv'.spillBundle_idle spill).1 (List.mem_map_of_mem _ member)

theorem conflictExample_queue_discipline :
    CfgWellFormed fixedCtx ∧ ConflictsInside fixedCtx ∧ AllocInv conflictExample ∧
      Reachable fixedCtx conflictExample conflictExampleDone ∧
      ((conflictExampleDone.allocationQueue.map (·.bundle)).Nodup ∧
      (∀ q ∈ conflictExampleDone.allocationQueue, (conflictExampleDone.bundles q.bundle).allocation = .none ∧
        (conflictExampleDone.bundles q.bundle).ranges ≠ [] ∧
        ∀ ss, (conflictExampleDone.spillsets ss).spillBundle ≠ some q.bundle) ∧
      (∀ ss sb, (conflictExampleDone.spillsets ss).spillBundle = some sb →
        (conflictExampleDone.bundles sb).spillset = ss ∧
          ∀ p, (conflictExampleDone.bundles sb).allocation ≠ .reg p)) :=
  ⟨fixedCtx_cfgWellFormed, fixedCtx_conflictsInside, conflictExample_allocInv, conflictExample_reaches,
    reachable_queue_discipline fixedCtx_cfgWellFormed fixedCtx_conflictsInside
      conflictExample_allocInv conflictExample_reaches⟩

/-- Live-range ownership over whole runs: every live range a bundle lists is in the arena and
points back to that bundle, so no live range is held by two bundles, and every bundle that may
be queued holds a sorted, disjoint list agreeing with the arena, whose live ranges keep their
uses inside them. -/
theorem reachable_ranges_owned (cfg : CfgWellFormed ctx) (contract : ConflictsInside ctx)
    (inv : AllocInv s) (reach : Reachable ctx s s') :
    (∀ x < s'.numBundles, ∀ e ∈ (s'.bundles x).ranges,
      (s'.ranges e.index).bundle = x ∧ e.index < s'.numRanges) ∧
    ∀ x, Allocatable s' x → ListReady s' (s'.bundles x).ranges := by
  have inv' := inv.reachable cfg contract reach
  exact ⟨inv'.owner, fun x allocatable => (inv'.ready x allocatable).1⟩

theorem conflictExample_ranges_owned :
    CfgWellFormed fixedCtx ∧ ConflictsInside fixedCtx ∧ AllocInv conflictExample ∧
      Reachable fixedCtx conflictExample conflictExampleDone ∧
      ((∀ x < conflictExampleDone.numBundles, ∀ e ∈ (conflictExampleDone.bundles x).ranges,
        (conflictExampleDone.ranges e.index).bundle = x ∧ e.index < conflictExampleDone.numRanges) ∧
      ∀ x, Allocatable conflictExampleDone x → ListReady conflictExampleDone (conflictExampleDone.bundles x).ranges) :=
  ⟨fixedCtx_cfgWellFormed, fixedCtx_conflictsInside, conflictExample_allocInv, conflictExample_reaches,
    reachable_ranges_owned fixedCtx_cfgWellFormed fixedCtx_conflictsInside
      conflictExample_allocInv conflictExample_reaches⟩

end Results

end IonRegalloc
