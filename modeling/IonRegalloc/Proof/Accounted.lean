import IonRegalloc.Proof.Run

/-! No bundle is forgotten: when `process_bundles` returns, every bundle with ranges is assigned,
spilled, or in a spillset that must live on the stack. -/

namespace IonRegalloc

/-- Where `process_bundles` may leave a bundle. -/
def Handled (s : Env) (x : Nat) : Prop :=
  (∃ p, (s.bundles x).allocation = .reg p) ∨ x ∈ s.allocationQueue.map (·.bundle) ∨
    x ∈ s.spilledBundles ∨ (s.spillsets (s.bundles x).spillset).required = true

/-- Every bundle with ranges other than `b`, the one being processed, is handled, and every
spill bundle is listed as spilled. -/
structure AccountedBut (s : Env) (b : Nat) : Prop where
  handled : ∀ x < s.numBundles, x ≠ b → (s.bundles x).ranges ≠ [] → Handled s x
  listed : ∀ ss sb, (s.spillsets ss).spillBundle = some sb → sb ∈ s.spilledBundles

/-- Every bundle with ranges is handled, and every spill bundle is listed as spilled. -/
structure Accounted (s : Env) : Prop where
  handled : ∀ x < s.numBundles, (s.bundles x).ranges ≠ [] → Handled s x
  listed : ∀ ss sb, (s.spillsets ss).spillBundle = some sb → sb ∈ s.spilledBundles

variable {ctx : Ctx} {s s' : Env} {b x : Nat}

theorem Handled.mono (handled : Handled s x)
    (allocation : (s'.bundles x).allocation = (s.bundles x).allocation)
    (queue : x ∈ s.allocationQueue.map (·.bundle) → x ∈ s'.allocationQueue.map (·.bundle))
    (spilled : x ∈ s.spilledBundles → x ∈ s'.spilledBundles)
    (required : (s.spillsets (s.bundles x).spillset).required = true →
      (s'.spillsets (s'.bundles x).spillset).required = true) : Handled s' x := by
  rcases handled with ⟨p, assigned⟩ | queued | listed | marked
  · exact .inl ⟨p, allocation ▸ assigned⟩
  · exact .inr (.inl (queue queued))
  · exact .inr (.inr (.inl (spilled listed)))
  · exact .inr (.inr (.inr (required marked)))

theorem Accounted.dequeue (accounted : Accounted s) {entry : PrioQueueEntry} :
    AccountedBut { s with allocationQueue := s.allocationQueue.erase entry } entry.bundle where
  handled y bound other nonempty := (accounted.handled y bound nonempty).mono rfl
    (fun queued => by
      obtain ⟨q, member, rfl⟩ := List.mem_map.mp queued
      exact List.mem_map_of_mem _
        ((List.mem_erase_of_ne fun same : q = entry => other (by rw [same])).mpr member))
    id id
  listed := accounted.listed

theorem evictBundle_spilledBundles (ctx : Ctx) (s : Env) (x : Nat) :
    (evictBundle ctx s x).spilledBundles = s.spilledBundles := by
  unfold evictBundle; split <;> rfl

theorem AccountedBut.evictBundle (accounted : AccountedBut s b) (x : Nat) :
    AccountedBut (evictBundle ctx s x) b := by
  have shape := sameShape_evictBundle ctx s x
  refine ⟨fun y bound other nonempty => ?_, fun ss sb found => ?_⟩
  · rw [shape.numBundles] at bound
    rw [(shape.bundles y).1] at nonempty
    have handled := accounted.handled y bound other nonempty
    cases allocated : (s.bundles x).allocation with
    | reg p =>
      rw [evictBundle_of_reg allocated]
      by_cases here : y = x
      · exact .inr (.inl (by simp [here]))
      · exact handled.mono (by simp [here]) (fun queued => by simp [queued]) id (by simp [here])
    | _ => simpa [IonRegalloc.evictBundle, allocated, Allocation.asReg] using handled
  · rw [evictBundle_spillsets] at found
    rw [evictBundle_spilledBundles]
    exact accounted.listed ss sb found

theorem AccountedBut.evictAll : ∀ (bundles : List Nat) (s : Env), AccountedBut s b →
    AccountedBut (evictAll ctx s bundles) b
  | [], _, accounted => accounted
  | x :: rest, _, accounted => AccountedBut.evictAll rest _ (accounted.evictBundle x)

theorem AccountedBut.updateSpillSet (accounted : AccountedBut s b) {ss : Nat}
    {f : SpillSet → SpillSet}
    (keeps : (f (s.spillsets ss)).spillBundle = (s.spillsets ss).spillBundle)
    (marks : (s.spillsets ss).required = true → (f (s.spillsets ss)).required = true) :
    AccountedBut (s.updateSpillSet ss f) b where
  handled y bound other nonempty := (accounted.handled y bound other nonempty).mono rfl id id
    fun marked => by
      by_cases here : (s.bundles y).spillset = ss
      · simp only [Env.updateSpillSet_spillsets, Env.updateSpillSet_bundles, here, if_true]
        exact marks (here ▸ marked)
      · simpa [here] using marked
  listed ss' sb found := by
    by_cases here : ss' = ss
    · subst here
      simp only [Env.updateSpillSet_spillsets, if_true, keeps] at found
      exact accounted.listed ss' sb found
    · simp only [Env.updateSpillSet_spillsets, here, if_false] at found
      exact accounted.listed ss' sb found

theorem AccountedBut.required (accounted : AccountedBut s b) :
    Accounted (s.updateSpillSet (s.bundles b).spillset fun ss => { ss with required := true }) := by
  have updated := @AccountedBut.updateSpillSet s b accounted (s.bundles b).spillset
    (fun ss => { ss with required := true }) rfl fun _ => rfl
  refine ⟨fun y bound nonempty => ?_, updated.listed⟩
  by_cases here : y = b
  · subst here; exact .inr (.inr (.inr (by simp)))
  · exact updated.handled y bound here nonempty

theorem AccountedBut.spilled (accounted : AccountedBut s b) :
    Accounted { s with spilledBundles := s.spilledBundles ++ [b] } := by
  refine ⟨fun y bound nonempty => ?_, fun ss sb found => by simp [accounted.listed ss sb found]⟩
  by_cases here : y = b
  · subst here; exact .inr (.inr (.inl (by simp)))
  · exact (accounted.handled y bound here nonempty).mono rfl id (by simp; exact Or.inl) id

theorem AccountedBut.assign (accounted : AccountedBut s b) (reg : Nat) :
    Accounted ((assignBundle s b reg).updateSpillSet (s.bundles b).spillset
      fun ss => { ss with regHint := reg }) := by
  have assigned : AccountedBut (assignBundle s b reg) b :=
    ⟨fun y bound other nonempty => (accounted.handled y bound other
      (by simpa [assignBundle, other] using nonempty)).mono (by simp [assignBundle, other]) id id
      (by simp [assignBundle, other]), accounted.listed⟩
  have updated := @AccountedBut.updateSpillSet _ b assigned (s.bundles b).spillset
    (fun ss => { ss with regHint := reg }) rfl id
  refine ⟨fun y bound nonempty => ?_, updated.listed⟩
  by_cases here : y = b
  · subst here; exact .inl ⟨reg, by simp [assignBundle]⟩
  · exact updated.handled y bound here nonempty

theorem AccountedBut.moveToSpill (accounted : AccountedBut s b) (pending : Pending s b) {spill : Nat}
    (found : (s.spillsets (s.bundles b).spillset).spillBundle = some spill) :
    Accounted (moveToSpillBundle s b spill) := by
  have apart : spill ≠ b := fun same => pending.allocatable.2 (same ▸ found)
  obtain ⟨-, queue, numBundles, -, spillsets, spilled⟩ := moveToSpillBundle_frame s b spill
  refine ⟨fun y bound nonempty => ?_, fun ss sb found' => ?_⟩
  · rw [numBundles] at bound
    by_cases isSpill : y = spill
    · subst isSpill
      exact .inr (.inr (.inl (spilled ▸ accounted.listed _ _ found)))
    by_cases isB : y = b
    · subst isB
      simp [moveToSpillBundle_bundles apart, Ne.symm apart] at nonempty
    have same : (moveToSpillBundle s b spill).bundles y = s.bundles y := by
      simp [moveToSpillBundle_bundles apart, isSpill, isB]
    rw [same] at nonempty
    exact (accounted.handled y bound isB nonempty).mono (by rw [same]) (by rw [queue]; exact id)
      (by rw [spilled]; exact id) (by rw [same, spillsets]; exact id)
  · rw [spillsets] at found'
    rw [spilled]
    exact accounted.listed ss sb found'

namespace SplitFrame

variable {ss : Nat}

theorem required_eq (frame : SplitFrame s s' b s.numBundles ss) (ss' : Nat) :
    (s'.spillsets ss').required = (s.spillsets ss').required := by
  rcases frame.spillsets with same | ⟨-, sb, -, updated⟩
  · rw [same]
  · by_cases here : ss' = ss
    · subst here; simp [updated]
    · simp [updated, Function.update_apply, here]

theorem spillBundle_other (frame : SplitFrame s s' b s.numBundles ss) {ss' : Nat}
    (other : ss' ≠ ss) : (s'.spillsets ss').spillBundle = (s.spillsets ss').spillBundle := by
  rcases frame.spillsets with same | ⟨-, sb, -, updated⟩
  · rw [same]
  · simp [updated, Function.update_apply, other]

end SplitFrame

/-- The halves of a split that kept a range are queued, a spill bundle it created is listed as
spilled, and every other bundle keeps what handled it. -/
theorem AccountedBut.split (accounted : AccountedBut s b) (inv : AllocInv s) (pending : Pending s b)
    {splitAt regHint : Nat} (nonMinimal : minimalBundle s b = false)
    (inside : InsideBundle s b splitAt)
    (split : splitAndRequeueBundle ctx s b splitAt regHint = .ok s') : Accounted s' := by
  obtain ⟨s₃, point, added, -, halves, frame, requeued⟩ :=
    inv.splitFrame pending nonMinimal inside split
  have queue : s'.allocationQueue = s.allocationQueue ++
      ([b, s.numBundles].filter fun x => !(s'.bundles x).ranges.isEmpty).map
        fun x => ⟨(s'.bundles x).prio, x, regHint⟩ := by
    rw [requeued.queue, halves.queue]
  have spilled : ∀ y ∈ s.spilledBundles, y ∈ s'.spilledBundles :=
    fun y member => frame.spilled.subset member
  have listed : ∀ sb, (s'.spillsets (s.bundles b).spillset).spillBundle = some sb →
      sb ∈ s'.spilledBundles := fun sb found => by
    rcases frame.listed sb found with old | new
    · exact spilled sb (accounted.listed _ sb old)
    · exact new
  refine ⟨fun y bound nonempty => ?_, fun ss sb found => ?_⟩
  · by_cases half : y ∈ [b, s.numBundles]
    · refine .inr (.inl ?_)
      rw [queue]
      simp only [List.map_append, List.map_map, List.mem_append]
      exact .inr (by simpa [Function.comp_def, half] using nonempty)
    by_cases isSpill : (s'.spillsets (s.bundles b).spillset).spillBundle = some y
    · exact .inr (.inr (.inl (listed y isSpill)))
    have isB : y ≠ b := fun same => half (by simp [same])
    have isN : y ≠ s.numBundles := fun same => half (by simp [same])
    obtain ⟨yBound, same⟩ := frame.untouched isB isN isSpill bound
    rw [same] at nonempty
    exact (accounted.handled y yBound isB nonempty).mono (by rw [same])
      (fun queued => by rw [queue]; exact List.map_append .. ▸ List.mem_append_left _ queued)
      (spilled y) (by rw [same, frame.required_eq]; exact id)
  · by_cases here : ss = (s.bundles b).spillset
    · subst here; exact listed sb found
    · rw [frame.spillBundle_other here] at found
      exact spilled sb (accounted.listed ss sb found)

theorem AccountedBut.probeDone (accounted : AccountedBut s b) (inv : AllocInv s)
    (pending : Pending s b) (done : ProbeDone ctx s b s') : Accounted s' := by
  cases done with
  | split nonMinimal inside split => exact accounted.split inv pending nonMinimal inside split
  | allocated => exact accounted.assign _

theorem AccountedBut.processed (accounted : AccountedBut s b) (inv : AllocInv s)
    (pending : Pending s b) (processed : Processed ctx s b s') : Accounted s' := by
  cases processed with
  | attempt done =>
    cases done with
    | probed done => exact accounted.probeDone inv pending done
    | required => exact accounted.required
    | spilled => exact accounted.spilled
  | retry _ _ done =>
    obtain ⟨inv', pending'⟩ := evictAll_inv _ s inv pending
    exact (accounted.evictAll _ s).probeDone inv' pending' done
  | moveToSpill found => exact accounted.moveToSpill pending found

theorem Accounted.step (cfg : CfgWellFormed ctx) (contract : ConflictsInside ctx)
    (accounted : Accounted s) (inv : AllocInv s) (step : Step ctx s s') : Accounted s' := by
  obtain ⟨queued, processed⟩ := step
  obtain ⟨inv₀, pending⟩ := inv.dequeue queued
  exact accounted.dequeue.processed inv₀ pending (inv₀.outcome cfg contract pending processed)

theorem Accounted.reachable (cfg : CfgWellFormed ctx) (contract : ConflictsInside ctx)
    (accounted : Accounted s) (inv : AllocInv s) (reach : Reachable ctx s s') :
    Accounted s' ∧ AllocInv s' := by
  induction reach with
  | refl => exact ⟨accounted, inv⟩
  | tail _ step reached =>
    exact ⟨reached.1.step cfg contract reached.2 step, reached.2.step cfg contract step⟩

/-- Completeness of `process_bundles`: started where every bundle with ranges is handled and
every spill bundle is listed as spilled, a run that returns `Ok` leaves the queue empty and
every bundle with ranges assigned to a register, listed as spilled, or in a spillset marked for
the stack. -/
theorem processBundles_complete {fuel : Nat} (cfg : CfgWellFormed ctx)
    (contract : ConflictsInside ctx) (inv : AllocInv s) (accounted : Accounted s)
    (run : processBundles ctx fuel s = .ok s') :
    s'.allocationQueue = [] ∧ ∀ x < s'.numBundles, (s'.bundles x).ranges ≠ [] →
      (∃ p, (s'.bundles x).allocation = .reg p) ∨ x ∈ s'.spilledBundles ∨
        (s'.spillsets (s'.bundles x).spillset).required = true := by
  obtain ⟨reach, empty⟩ := processBundles_run fuel s s' run
  obtain ⟨accounted', -⟩ := accounted.reachable cfg contract inv reach
  refine ⟨empty, fun x bound nonempty => ?_⟩
  rcases accounted'.handled x bound nonempty with assigned | queued | rest
  · exact .inl assigned
  · simp [empty] at queued
  · exact .inr rest

theorem conflictExample_accounted : Accounted conflictExample where
  handled x bound _ := by
    obtain rfl | rfl : x = 0 ∨ x = 1 := by change x < 2 at bound; omega
    · exact .inr (.inl (by decide))
    · exact .inl ⟨1, rfl⟩
  listed ss sb found := by simp [conflictExample] at found

theorem conflictExample_complete :
    CfgWellFormed fixedCtx ∧ ConflictsInside fixedCtx ∧ AllocInv conflictExample ∧
      Accounted conflictExample ∧ processBundles fixedCtx 5 conflictExample = .ok conflictExampleDone ∧
      (conflictExampleDone.allocationQueue = [] ∧ ∀ x < conflictExampleDone.numBundles,
        (conflictExampleDone.bundles x).ranges ≠ [] →
        (∃ p, (conflictExampleDone.bundles x).allocation = .reg p) ∨
          x ∈ conflictExampleDone.spilledBundles ∨
          (conflictExampleDone.spillsets (conflictExampleDone.bundles x).spillset).required = true) :=
  ⟨fixedCtx_cfgWellFormed, fixedCtx_conflictsInside, conflictExample_allocInv,
    conflictExample_accounted, conflictExample_run, processBundles_complete fixedCtx_cfgWellFormed
      fixedCtx_conflictsInside conflictExample_allocInv conflictExample_accounted conflictExample_run⟩

end IonRegalloc
