import IonRegalloc.Proof.Run

/-! How `process_bundle` can fail on a bundle popped in a state of a run: only in the decision on
a minimal bundle, with `TooManyLiveRegs` or the panic. -/

namespace IonRegalloc

open AllocMap

/-- The two aborts of the decision on a minimal bundle (process.rs lines 940-1003). -/
def MinimalAbort (e : Abort) : Prop := e = .tooManyLiveRegs ∨ e = .panic minimalBundlePanic

section Scan

variable {s : Env} {c : Option Nat}

/-- A scan that holds a conflict has noted the point of its first one. -/
def ConflictScan.Noted (scan : ConflictScan) : Prop :=
  scan.conflicts = [] ∨ scan.firstConflict.isSome

theorem ConflictScan.noted_noteFirst (scan : ConflictScan) (pregKey key : LiveRangeKey) :
    (scan.noteFirst pregKey key).Noted :=
  .inr (by unfold ConflictScan.noteFirst; split <;> simp_all)

theorem recordConflict_noted {key pregKey : LiveRangeKey} {lr : Option Nat}
    {scan scan' : ConflictScan} (recorded : recordConflict s c key pregKey lr scan = .ok scan') :
    scan'.Noted := by
  simp only [recordConflict] at recorded
  split at recorded
  · cases recorded
  · split at recorded
    · cases recorded; exact ConflictScan.noted_noteFirst _ _ _
    · split at recorded <;> cases recorded; exact ConflictScan.noted_noteFirst _ _ _

theorem recordAll_noted {scan' : ConflictScan} :
    ∀ (visits : List (LiveRangeKey × (LiveRangeKey × Option Nat))) (scan : ConflictScan),
      scan.Noted → recordAll s c visits scan = .ok scan' → scan'.Noted
  | [], _, noted, run => by cases run; exact noted
  | (key, pregKey, pregRange) :: rest, scan, _, run => by
    simp only [recordAll] at run
    cases recorded : recordConflict s c key pregKey pregRange scan with
    | error result => rw [recorded] at run; cases run
    | ok scan₁ =>
      rw [recorded] at run
      exact recordAll_noted rest scan₁ (recordConflict_noted recorded) run

/-- On a sorted map, probing a bundle whose ranges are sorted by start never fails: the walk
records the naive probe's visits, and a scan with conflicts has its first conflict point. -/
theorem tryToAllocateBundleToReg_ne_error {bundle reg : Nat}
    (sorted : Sorted (s.pregs reg).allocations)
    (sortedByStart : (s.bundles bundle).ranges.Pairwise fun a b => a.range.from ≤ b.range.from)
    (nonempty : (s.bundles bundle).ranges ≠ []) (e : Abort) :
    tryToAllocateBundleToReg s bundle reg c ≠ .error e := by
  rw [tryToAllocateBundleToReg_eq_recordAll c sorted sortedByStart nonempty]
  split
  · simp
  · rename_i run
    have noted := recordAll_noted _ _ (.inl rfl) run
    unfold concludeScan
    split
    · split
      · simp
      · rename_i many _ missing
        rcases noted with empty | found
        · simp [empty] at many
        · simp [missing] at found
    · simp

end Scan

section Probe

variable {ctx : Ctx} {limit : Option Nat → Option Nat → Option Nat} {s : Env} {bundle : Nat}
  {e : Abort}

theorem probeRegs_ne_error
    (probe : ∀ reg c e, tryToAllocateBundleToReg s bundle reg c ≠ .error e) :
    ∀ (pregs : List Nat) (best : ProbeBest), probeRegs ctx limit s bundle pregs best ≠ .error e
  | [], _ => by simp [probeRegs]
  | reg :: rest, best => by
    simp only [probeRegs]
    split
    · exact absurd ‹_› (probe _ _ _)
    · simp
    · exact probeRegs_ne_error probe rest _

variable {regClass hintReg : Nat} {req : Requirement} {attempts : Nat}

/-- The decision after an exhausted probe fails only on a minimal bundle: the split branch
splits a non-minimal bundle at a point inside it, which succeeds, and the evict branch finds the
set its retained cost came with. -/
theorem decideAfterProbe_aborts {best : ProbeBest} (cfg : CfgWellFormed ctx) (inv : AllocInv s)
    (pending : Pending s bundle) (kept : best.EvictCostIsMax s)
    (below : ∀ last, (s.bundles bundle).ranges.getLast? = some last →
      best.splitPoint < last.range.to)
    (aborted : decideAfterProbe ctx s bundle regClass req attempts best = .error e) :
    MinimalAbort e := by
  have nonempty := mt List.head?_eq_none_iff.mp pending.nonempty
  simp only [decideAfterProbe] at aborted
  split at aborted
  · split at aborted
    · contradiction
    · split at aborted <;> cases aborted
      exacts [.inl rfl, .inr rfl]
  · split at aborted
    · rename_i splitBranch
      split at aborted
      · contradiction
      · split at aborted
        · rename_i first head _ _ failed
          obtain ⟨s', ok⟩ := inv.split_ok pending (by simpa using splitBranch.1)
            (hoistedSplit_inside cfg (inv.ready bundle pending.allocatable).1.sorted head below)
          rw [ok] at failed
          cases failed
        · cases aborted
    · rename_i minimalCase splitCase
      split at aborted
      · rename_i absent
        cases cost : best.evictCost with
        | none =>
          by_cases minimal : minimalBundle s bundle = true <;>
            simp [cost, minimal] at minimalCase splitCase
        | some _ => simp [ProbeBest.EvictCostIsMax, absent, cost] at kept
      · cases aborted

theorem probeAndDecide_aborts {fixedPreg : Option Nat} (cfg : CfgWellFormed ctx)
    (inv : AllocInv s) (pending : Pending s bundle)
    (aborted : probeAndDecide ctx limit s bundle regClass hintReg req attempts fixedPreg =
      .error e) :
    MinimalAbort e := by
  have sorted := (inv.ready bundle pending.allocatable).1.sorted
  have probe : ∀ reg c e, tryToAllocateBundleToReg s bundle reg c ≠ .error e := fun reg _ =>
    tryToAllocateBundleToReg_ne_error (inv.occupancy.sorted reg) sorted.toOrdered.sortedByStart
      pending.nonempty
  simp only [probeAndDecide] at aborted
  split at aborted
  · exact absurd (List.head?_eq_none_iff.mp ‹_›) pending.nonempty
  · split at aborted
    · exact absurd ‹_› (probeRegs_ne_error probe _ _)
    · rename_i alloc s₁ run
      obtain ⟨reg, c, rfl, -⟩ := probeRegs_allocated _ _ run
      cases aborted
    · exact decideAfterProbe_aborts cfg inv pending
        (probeRegs_evictCostIsMax _ _ ProbeBest.initial_evictCostIsMax ‹_›)
        (fun _ tail => probeRegs_exhausted_below sorted ‹_› tail) aborted

theorem processAttempt_aborts (cfg : CfgWellFormed ctx) (inv : AllocInv s)
    (pending : Pending s bundle)
    (aborted : processAttempt ctx limit s bundle regClass hintReg req attempts = .error e) :
    MinimalAbort e := by
  cases req <;> simp only [processAttempt] at aborted
  case stack | any => cases aborted
  all_goals exact probeAndDecide_aborts cfg inv pending aborted

/-- The attempt loop, given the two attempts of fuel `process_bundle` gives it or more, fails
only in the decision on a minimal bundle: the round after an eviction never evicts again. -/
theorem attemptLoop_aborts (cfg : CfgWellFormed ctx) (inv : AllocInv s)
    (pending : Pending s bundle) {fuel : Nat}
    (aborted : attemptLoop ctx limit bundle regClass hintReg req (fuel + 2) 0 s = .error e) :
    MinimalAbort e := by
  simp only [attemptLoop, Nat.zero_add] at aborted
  split at aborted
  · cases aborted; exact processAttempt_aborts cfg inv pending ‹_›
  · cases aborted
  · rename_i bundles _
    obtain ⟨inv', pending'⟩ := evictAll_inv bundles s inv pending
    split at aborted
    · cases aborted; exact processAttempt_aborts cfg inv' pending' ‹_›
    · cases aborted
    · rename_i again
      obtain ⟨_, _, decided⟩ := processAttempt_eq_evict again
      have := (decideAfterProbe_eq_evict decided).2.1
      omega

theorem processBundleWith_aborts {regHint : Nat} (cfg : CfgWellFormed ctx)
    (contract : ConflictsInside ctx) (inv : AllocInv s) (pending : Pending s bundle)
    (aborted : processBundleWith ctx limit s bundle regHint = .error e) : MinimalAbort e := by
  simp only [processBundleWith] at aborted
  split at aborted
  · obtain ⟨nonMinimal, inside⟩ := contract.conflict (inv.ready _ pending.allocatable).1
      (inv.flags _ pending.allocatable) pending.nonempty ‹_›
    obtain ⟨s', ok⟩ := inv.split_ok pending nonMinimal inside
    rw [ok] at aborted
    cases aborted
  · split at aborted
    · cases aborted
    · exact attemptLoop_aborts cfg inv pending aborted

end Probe

section Results

variable {ctx : Ctx} {s : Env}

/-- In a state satisfying the run invariant, `process_bundle` on any queued entry returns a state
or aborts with `TooManyLiveRegs` or the minimal-bundle panic: no unwrap, index or loop bound of
it fails, whichever entry the queue yields. -/
theorem popped_returns_or_aborts (cfg : CfgWellFormed ctx) (contract : ConflictsInside ctx)
    (inv : AllocInv s) {entry : PrioQueueEntry} (queued : entry ∈ s.allocationQueue) :
    (∃ s', processBundle ctx { s with allocationQueue := s.allocationQueue.erase entry }
        entry.bundle entry.regHint = .ok s') ∨
      processBundle ctx { s with allocationQueue := s.allocationQueue.erase entry }
        entry.bundle entry.regHint = .error .tooManyLiveRegs ∨
      processBundle ctx { s with allocationQueue := s.allocationQueue.erase entry }
        entry.bundle entry.regHint = .error (.panic minimalBundlePanic) := by
  obtain ⟨inv₀, pending⟩ := inv.dequeue queued
  cases processed : processBundle ctx { s with allocationQueue := s.allocationQueue.erase entry }
      entry.bundle entry.regHint with
  | ok s' => exact .inl ⟨s', rfl⟩
  | error e =>
    rcases processBundleWith_aborts cfg contract inv₀ pending processed with rfl | rfl
    exacts [.inr (.inl rfl), .inr (.inr rfl)]

theorem conflictExample_returns_or_aborts :
    CfgWellFormed fixedCtx ∧ ConflictsInside fixedCtx ∧ AllocInv conflictExample ∧
      (⟨8, 0, 99⟩ : PrioQueueEntry) ∈ conflictExample.allocationQueue ∧
      ((∃ s', processBundle fixedCtx { conflictExample with
          allocationQueue := conflictExample.allocationQueue.erase ⟨8, 0, 99⟩ } 0 99 = .ok s') ∨
        processBundle fixedCtx { conflictExample with
          allocationQueue := conflictExample.allocationQueue.erase ⟨8, 0, 99⟩ } 0 99 =
          .error .tooManyLiveRegs ∨
        processBundle fixedCtx { conflictExample with
          allocationQueue := conflictExample.allocationQueue.erase ⟨8, 0, 99⟩ } 0 99 =
          .error (.panic minimalBundlePanic)) :=
  have queued : (⟨8, 0, 99⟩ : PrioQueueEntry) ∈ conflictExample.allocationQueue := by
    simp [conflictExample]
  ⟨fixedCtx_cfgWellFormed, fixedCtx_conflictsInside, conflictExample_allocInv, queued,
    popped_returns_or_aborts fixedCtx_cfgWellFormed fixedCtx_conflictsInside conflictExample_allocInv
      queued⟩

end Results

end IonRegalloc
