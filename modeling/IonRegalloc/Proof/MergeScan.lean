import IonRegalloc.Ion.TryAllocate

/-! The merged walk of `try_to_allocate_bundle_to_reg` on a sorted map records the visits of the
naive probe, the re-seek after 16 skips included. -/

namespace IonRegalloc

open AllocMap

/-- A bundle's range list as the probe reads it: sorted by start and pairwise
non-overlapping. -/
structure RangesOrdered (ranges : List LiveRangeListEntry) : Prop where
  sortedByStart : ranges.Pairwise fun a b => a.range.from ≤ b.range.from
  disjoint : ranges.Pairwise fun a b =>
    ¬ (LiveRangeKey.fromRange a.range).Overlaps (LiveRangeKey.fromRange b.range)

instance (ranges : List LiveRangeListEntry) : Decidable (RangesOrdered ranges) :=
  decidable_of_iff
    ((ranges.Pairwise fun a b => a.range.from ≤ b.range.from) ∧ ranges.Pairwise fun a b =>
      ¬ (LiveRangeKey.fromRange a.range).Overlaps (LiveRangeKey.fromRange b.range))
    ⟨fun ⟨sortedByStart, disjoint⟩ => ⟨sortedByStart, disjoint⟩,
      fun ⟨sortedByStart, disjoint⟩ => ⟨sortedByStart, disjoint⟩⟩

/-- A bundle's ranges are nonempty and strictly increasing, so pairwise disjoint. -/
def RangesSorted (ranges : List LiveRangeListEntry) : Prop :=
  KeysSorted (fun entry : LiveRangeListEntry => LiveRangeKey.fromRange entry.range) ranges

instance (ranges : List LiveRangeListEntry) : Decidable (RangesSorted ranges) :=
  inferInstanceAs (Decidable (KeysSorted _ ranges))

theorem RangesSorted.toOrdered {ranges : List LiveRangeListEntry} (sorted : RangesSorted ranges) :
    RangesOrdered ranges where
  sortedByStart := (KeysSorted.ordered sorted).imp_of_mem fun {a _} member _ before => by
    have := KeysSorted.nonempty sorted a member; simp at before this; omega
  disjoint := (KeysSorted.ordered sorted).imp fun before overlap => by
    have := overlap.1; simp at before this; omega

/-- An entry ending by the point `x`: what the walk skips for a range starting at `x`. -/
def endsBy (x : Nat) (e : LiveRangeKey × Option Nat) : Bool := decide (e.1.to ≤ x)

/-- The `'alloc` loop once the entries ending by the range's start are skipped: each entry
starting before the range's end is recorded as a conflict. -/
def scanRange (s : Env) (maxAllowableCost : Option Nat) (key : LiveRangeKey) :
    AllocMap → ConflictScan → AllocLoopExit
  | [], scan => .breakRanges scan
  | (pregKey, pregRange) :: rest, scan =>
    if key.to ≤ pregKey.from then .breakAlloc ((pregKey, pregRange) :: rest) scan
    else
      match recordConflict s maxAllowableCost key pregKey pregRange scan with
      | .error result => .early result
      | .ok scan => scanRange s maxAllowableCost key rest scan

section SortedMap

variable {m : AllocMap} {x : Nat}

theorem dropWhile_endsBy_tail {e : LiveRangeKey × Option Nat} {rest : AllocMap}
    (sorted : Sorted (e :: rest)) (after : x < e.1.to) : rest.dropWhile (endsBy x) = rest := by
  obtain ⟨_, below, rest_sorted⟩ := (sorted_cons_iff e).mp sorted
  cases rest with
  | nil => rfl
  | cons e' rest' =>
    have := below e' (List.mem_cons_self _ _); have := rest_sorted.nonempty e' (List.mem_cons_self _ _)
    simp [List.dropWhile_cons, endsBy]; omega

theorem dropWhile_endsBy_of_suffix {e : LiveRangeKey × Option Nat} {rest : AllocMap}
    (sorted : Sorted m) (suffix : (e :: rest) <:+ m) (before : e.1.to ≤ x) :
    m.dropWhile (endsBy x) = rest.dropWhile (endsBy x) := by
  obtain ⟨pre, rfl⟩ := suffix
  have nonempty := sorted.nonempty e (by simp)
  rw [List.dropWhile_append_of_pos fun a member => by
      have := KeysSorted.before sorted member; simp [endsBy]; omega]
  simp [List.dropWhile_cons, endsBy, before]

theorem rangeFrom_point (m : AllocMap) (x : Nat) :
    m.rangeFrom (LiveRangeKey.fromRange ⟨x, x⟩) = m.dropWhile (endsBy x) :=
  rangeFrom_eq_dropWhile _ _

theorem dropWhile_dropWhile {α : Type} (p : α → Bool) (l : List α) :
    (l.dropWhile p).dropWhile p = l.dropWhile p := by
  induction l with
  | nil => rfl
  | cons a rest ih => by_cases h : p a <;> simp [List.dropWhile_cons, h, ih]

end SortedMap

/-- One `'alloc` loop on a sorted map, from any suffix of it and with fuel to spare, skips the
entries ending by the range's start (re-seeking or not) and then scans. -/
theorem allocLoop_eq_scanRange {s : Env} {reg : Nat} (sorted : Sorted (s.pregs reg).allocations)
    (maxAllowableCost : Option Nat) (range : CodeRange) (fuel : Nat) :
    ∀ (iter : AllocMap) (skips : Nat) (scan : ConflictScan),
      iter <:+ (s.pregs reg).allocations → iter.length < fuel →
      allocLoop s reg maxAllowableCost range fuel iter skips scan =
        scanRange s maxAllowableCost (LiveRangeKey.fromRange range)
          (iter.dropWhile (endsBy range.from)) scan := by
  induction fuel with
  | zero => intro _ _ _ _ short; exact absurd short (Nat.not_lt_zero _)
  | succ fuel ih =>
    intro iter skips scan suffix short
    cases iter with
    | nil => simp [allocLoop, scanRange]
    | cons e rest =>
      obtain ⟨pregKey, pregRange⟩ := e
      have restSuffix : rest <:+ (s.pregs reg).allocations :=
        (List.suffix_cons _ _).trans suffix
      have here := sorted.sublist suffix.sublist
      by_cases below : pregKey.to ≤ range.from
      · have skipped : ((pregKey, pregRange) :: rest).dropWhile (endsBy range.from) =
            rest.dropWhile (endsBy range.from) := by simp [List.dropWhile_cons, endsBy, below]
        rw [skipped]
        by_cases reseek : 16 ≤ skips + 1
        · simp only [allocLoop, LiveRangeKey.cmp_eq_lt_iff, LiveRangeKey.fromRange_from, below,
            reseek, ite_true, rangeFrom_point]
          rw [dropWhile_endsBy_of_suffix sorted suffix below,
            ih _ 0 scan ((List.dropWhile_suffix _).trans restSuffix)
              (Nat.lt_of_le_of_lt (List.dropWhile_suffix _).length_le (by simpa using short)),
            dropWhile_dropWhile]
        · simp only [allocLoop, LiveRangeKey.cmp_eq_lt_iff, LiveRangeKey.fromRange_from, below,
            reseek, ite_true, ite_false]
          exact ih rest (skips + 1) scan restSuffix (by simpa using short)
      · have kept : ((pregKey, pregRange) :: rest).dropWhile (endsBy range.from) =
            (pregKey, pregRange) :: rest := by simp [List.dropWhile_cons, endsBy, below]
        have restKept := dropWhile_endsBy_tail here (Nat.lt_of_not_le below)
        rw [kept]
        by_cases after : range.to ≤ pregKey.from
        · have greater : pregKey.cmp (LiveRangeKey.fromRange range) = .gt := by
            rw [LiveRangeKey.cmp_eq_gt_iff]; simp; omega
          simp [allocLoop, scanRange, below, greater, after]
        · have overlap : pregKey.cmp (LiveRangeKey.fromRange range) = .eq := by
            rw [LiveRangeKey.cmp_eq_eq_iff]; simp [LiveRangeKey.Overlaps]; omega
          simp only [allocLoop, scanRange, overlap, LiveRangeKey.fromRange_to, after, ite_false,
            reduceCtorEq]
          cases recordConflict s maxAllowableCost (LiveRangeKey.fromRange range) pregKey pregRange scan with
          | error result => rfl
          | ok scan => exact (ih rest 0 scan restSuffix (by simpa using short)).trans (by rw [restKept])

/-- The ranges of the bundle that the map entry `e` overlaps, in order. -/
def rangesHit (ranges : List LiveRangeListEntry) (e : LiveRangeKey × Option Nat) :
    List LiveRangeListEntry :=
  ranges.filter fun entry => decide (e.1.Overlaps (LiveRangeKey.fromRange entry.range))

/-- The naive probe's visits: each map entry overlapping some range of the bundle, in key
order, with the key of the first range it overlaps. -/
def hitPairs (ranges : List LiveRangeListEntry) (m : AllocMap) :
    List (LiveRangeKey × (LiveRangeKey × Option Nat)) :=
  m.filterMap fun e =>
    (rangesHit ranges e).head?.map fun entry => (LiveRangeKey.fromRange entry.range, e)

/-- `recordConflict` over the visits in order, up to the first early result. -/
def recordAll (s : Env) (maxAllowableCost : Option Nat) :
    List (LiveRangeKey × (LiveRangeKey × Option Nat)) → ConflictScan →
      Except AllocRegResult ConflictScan
  | [], scan => .ok scan
  | (key, pregKey, pregRange) :: rest, scan =>
    recordConflict s maxAllowableCost key pregKey pregRange scan >>= recordAll s maxAllowableCost rest

/-- How the `'ranges` loop ends once the visits are recorded. -/
def ScanExit.ofRecorded : Except AllocRegResult ConflictScan → ScanExit
  | .error result => .early result
  | .ok scan => .finished scan

/-- What `'ranges` does after the `'alloc` loop of one range. -/
def afterAlloc (s : Env) (reg : Nat) (maxAllowableCost : Option Nat) (fuel : Nat)
    (rest : List LiveRangeListEntry) : AllocLoopExit → ScanExit
  | .breakAlloc iter scan => rangesLoop s reg maxAllowableCost fuel rest iter scan
  | .breakRanges scan => .finished scan
  | .early result => .early result
  | .diverge => .diverge

section Visits

variable {ranges : List LiveRangeListEntry} {r : LiveRangeListEntry} {rs : List LiveRangeListEntry}
  {e : LiveRangeKey × Option Nat} {l : AllocMap}

@[simp] theorem hitPairs_nil : hitPairs ranges [] = [] := rfl

@[simp] theorem hitPairs_no_ranges : hitPairs [] l = [] := by
  simp [hitPairs, rangesHit]

theorem hitPairs_cons_of_overlaps (overlap : e.1.Overlaps (LiveRangeKey.fromRange r.range)) :
    hitPairs (r :: rs) (e :: l) = (LiveRangeKey.fromRange r.range, e) :: hitPairs (r :: rs) l := by
  simp [hitPairs, rangesHit, overlap]

theorem hitPairs_cons_of_miss (miss : rangesHit ranges e = []) :
    hitPairs ranges (e :: l) = hitPairs ranges l := by
  simp [hitPairs, miss]

theorem hitPairs_cons_of_apart (apart : ∀ e ∈ l, ¬ e.1.Overlaps (LiveRangeKey.fromRange r.range)) :
    hitPairs (r :: rs) l = hitPairs rs l :=
  List.filterMap_congr fun e member => by simp [rangesHit, apart e member]

theorem hitPairs_dropWhile_endsBy (sortedByStart : ∀ x ∈ rs, r.range.from ≤ x.range.from)
    (l : AllocMap) :
    hitPairs (r :: rs) (l.dropWhile (endsBy r.range.from)) = hitPairs (r :: rs) l := by
  induction l with
  | nil => rfl
  | cons e rest ih =>
    by_cases ends : e.1.to ≤ r.range.from
    · have miss : rangesHit (r :: rs) e = [] := List.filter_eq_nil_iff.mpr fun x member hit => by
        have start : r.range.from ≤ x.range.from := by
          rcases List.mem_cons.mp member with rfl | inRest
          · exact le_refl _
          · exact sortedByStart x inRest
        have := (of_decide_eq_true hit).1; simp at this; omega
      rw [hitPairs_cons_of_miss miss, ← ih]
      simp [List.dropWhile_cons, endsBy, ends]
    · simp [List.dropWhile_cons, endsBy, ends]

end Visits

theorem lt_to_of_mem_dropWhile_endsBy {x : Nat} :
    ∀ {l : AllocMap}, Sorted l → ∀ e ∈ l.dropWhile (endsBy x), x < e.1.to
  | [], _, e, member => by simp at member
  | a :: rest, sorted, e, member => by
    obtain ⟨a_nonempty, below, rest_sorted⟩ := (sorted_cons_iff a).mp sorted
    by_cases ends : a.1.to ≤ x
    · simp only [List.dropWhile_cons, endsBy, ends, decide_True, ite_true] at member
      exact lt_to_of_mem_dropWhile_endsBy rest_sorted e member
    · simp only [List.dropWhile_cons, endsBy, ends, decide_False, ite_false] at member
      rcases List.mem_cons.mp member with rfl | inRest
      · omega
      · have := below e inRest; have := rest_sorted.nonempty e inRest; omega

theorem rangesLoop_cons {s : Env} {reg : Nat} {c : Option Nat} {fuel : Nat}
    (entry : LiveRangeListEntry) (rest : List LiveRangeListEntry) (iter : AllocMap)
    (scan : ConflictScan) :
    rangesLoop s reg c fuel (entry :: rest) iter scan =
      afterAlloc s reg c fuel rest (allocLoop s reg c entry.range fuel iter 0 scan) := by
  simp only [rangesLoop]; cases allocLoop s reg c entry.range fuel iter 0 scan <;> rfl

section Walk

variable {s : Env} {reg : Nat} {c : Option Nat} {fuel : Nat}

/-- From a suffix of the map whose entries all end after the range's start, the range's scan
and what `'ranges` does next record the visits of that range and the later ones. -/
theorem afterAlloc_scanRange (sorted : Sorted (s.pregs reg).allocations)
    {r : LiveRangeListEntry} {rs : List LiveRangeListEntry}
    (next : ∀ iter scan, iter <:+ (s.pregs reg).allocations →
      rangesLoop s reg c fuel rs iter scan = .ofRecorded (recordAll s c (hitPairs rs iter) scan)) :
    ∀ (iter : AllocMap) (scan : ConflictScan), iter <:+ (s.pregs reg).allocations →
      (∀ e ∈ iter, r.range.from < e.1.to) →
      afterAlloc s reg c fuel rs (scanRange s c (LiveRangeKey.fromRange r.range) iter scan) =
        .ofRecorded (recordAll s c (hitPairs (r :: rs) iter) scan)
  | [], _, _, _ => rfl
  | (pregKey, pregRange) :: rest, scan, suffix, endsAfter => by
    obtain ⟨nonempty, below, -⟩ :=
      (sorted_cons_iff (pregKey, pregRange)).mp (sorted.sublist suffix.sublist)
    have nonempty : pregKey.from < pregKey.to := nonempty
    by_cases after : r.range.to ≤ pregKey.from
    · have apart : ∀ e ∈ (pregKey, pregRange) :: rest,
          ¬ e.1.Overlaps (LiveRangeKey.fromRange r.range) := fun e member overlap => by
        have startsBefore : e.1.from < r.range.to := by simpa using overlap.2
        rcases List.mem_cons.mp member with rfl | inRest
        · exact absurd startsBefore (by simpa using after)
        · have : pregKey.to ≤ e.1.from := below e inRest
          omega
      simp only [scanRange, LiveRangeKey.fromRange_to, after, ite_true, afterAlloc]
      rw [next _ _ suffix, hitPairs_cons_of_apart apart]
    · have overlap : pregKey.Overlaps (LiveRangeKey.fromRange r.range) := by
        have := endsAfter _ (List.mem_cons_self _ _)
        simp [LiveRangeKey.Overlaps] at this ⊢; omega
      rw [hitPairs_cons_of_overlaps overlap]
      simp only [scanRange, LiveRangeKey.fromRange_to, after, ite_false, recordAll]
      cases recordConflict s c (LiveRangeKey.fromRange r.range) pregKey pregRange scan with
      | error result => rfl
      | ok scan =>
        exact afterAlloc_scanRange sorted next rest scan ((List.suffix_cons _ _).trans suffix)
          fun e member => endsAfter e (List.mem_cons_of_mem _ member)

/-- The `'ranges` loop from any suffix of a sorted map, for ranges sorted by start, records the
naive probe's visits of that suffix. -/
theorem rangesLoop_eq_recordAll (c : Option Nat) (sorted : Sorted (s.pregs reg).allocations)
    (enough : (s.pregs reg).allocations.length < fuel) :
    ∀ (ranges : List LiveRangeListEntry), ranges.Pairwise (fun a b => a.range.from ≤ b.range.from) →
      ∀ (iter : AllocMap) (scan : ConflictScan), iter <:+ (s.pregs reg).allocations →
      rangesLoop s reg c fuel ranges iter scan = .ofRecorded (recordAll s c (hitPairs ranges iter) scan)
  | [], _, _, _, _ => by simp [rangesLoop, recordAll, ScanExit.ofRecorded]
  | r :: rs, sortedByStart, iter, scan, suffix => by
    obtain ⟨first, restSorted⟩ := List.pairwise_cons.mp sortedByStart
    have skipped : iter.dropWhile (endsBy r.range.from) <:+ (s.pregs reg).allocations :=
      (List.dropWhile_suffix _).trans suffix
    rw [rangesLoop_cons, allocLoop_eq_scanRange sorted c r.range fuel iter 0 scan suffix
        (Nat.lt_of_le_of_lt suffix.length_le enough),
      afterAlloc_scanRange sorted (rangesLoop_eq_recordAll c sorted enough rs restSorted) _ scan skipped
        (lt_to_of_mem_dropWhile_endsBy (sorted.sublist suffix.sublist)),
      hitPairs_dropWhile_endsBy first]

end Walk

/-- On a sorted map, for nonempty ranges sorted by start, the probe records the naive probe's
visits of the whole map, whatever the cost limit, and concludes from them. -/
theorem tryToAllocateBundleToReg_eq_recordAll {s : Env} {bundle reg : Nat} (c : Option Nat)
    (sorted : Sorted (s.pregs reg).allocations)
    (sortedByStart : (s.bundles bundle).ranges.Pairwise fun a b => a.range.from ≤ b.range.from)
    (nonempty : (s.bundles bundle).ranges ≠ []) :
    tryToAllocateBundleToReg s bundle reg c =
      match recordAll s c (hitPairs (s.bundles bundle).ranges (s.pregs reg).allocations)
          ⟨[], 0, none⟩ with
      | .error result => .ok (result, s)
      | .ok scan => concludeScan s bundle reg scan := by
  obtain ⟨first, rest, split⟩ := List.exists_cons_of_ne_nil nonempty
  have start := (List.pairwise_cons.mp (split ▸ sortedByStart)).1
  have walk := rangesLoop_eq_recordAll c sorted (Nat.lt_succ_self _) _ sortedByStart
    ((s.pregs reg).allocations.dropWhile (endsBy first.range.from)) ⟨[], 0, none⟩
    (List.dropWhile_suffix _)
  rw [split, hitPairs_dropWhile_endsBy start] at walk
  simp only [tryToAllocateBundleToReg, split, List.head?_cons, rangeFrom_point, walk]
  cases recordAll s c (hitPairs (first :: rest) (s.pregs reg).allocations) ⟨[], 0, none⟩ <;> rfl

end IonRegalloc
