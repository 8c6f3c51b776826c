import Mathlib.Data.List.Nodup
import Mathlib.Data.List.Infix
import IonRegalloc.Data.ProgPoint

/-! The PReg allocation map, a `BTreeMap` whose comparator answers `Equal` for overlapping keys,
as its entries in key order; an entry with no `LiveRangeIndex` is a fixed reservation. -/

namespace IonRegalloc

/-- Items whose keys are nonempty and strictly increasing, so pairwise disjoint: the keys of
a PReg map, and the ranges of a bundle. -/
structure KeysSorted {α : Type} (key : α → LiveRangeKey) (l : List α) : Prop where
  ordered : l.Pairwise fun a b => (key a).to ≤ (key b).from
  nonempty : ∀ a ∈ l, (key a).from < (key a).to

instance {α : Type} (key : α → LiveRangeKey) (l : List α) : Decidable (KeysSorted key l) :=
  decidable_of_iff
    (l.Pairwise (fun a b => (key a).to ≤ (key b).from) ∧ ∀ a ∈ l, (key a).from < (key a).to)
    ⟨fun ⟨ordered, nonempty⟩ => ⟨ordered, nonempty⟩, fun ⟨ordered, nonempty⟩ => ⟨ordered, nonempty⟩⟩

/-- A PReg's map, as its `(key, LiveRangeIndex)` entries in key order. -/
abbrev AllocMap := List (LiveRangeKey × Option Nat)

namespace AllocMap

/-- `BTreeMap::insert`: a key comparing `Equal` to a present one keeps the present key and
takes the new value; otherwise the entry goes before the first greater key. -/
def insert (key : LiveRangeKey) (value : Option Nat) : AllocMap → AllocMap
  | [] => [(key, value)]
  | e :: rest =>
    match key.cmp e.1 with
    | .gt => e :: insert key value rest
    | .eq => (e.1, value) :: rest
    | .lt => (key, value) :: e :: rest

/-- `BTreeMap::remove`: drops the first entry comparing `Equal` to `key`. -/
def remove (key : LiveRangeKey) : AllocMap → AllocMap
  | [] => []
  | e :: rest =>
    match key.cmp e.1 with
    | .gt => e :: remove key rest
    | .eq => rest
    | .lt => e :: rest

/-- `BTreeMap::range(key..)`: the entries from the first one not below `key`. -/
def rangeFrom (key : LiveRangeKey) (m : AllocMap) : AllocMap :=
  m.dropWhile (fun e => decide (e.1.cmp key = .lt))

/-- The map invariant: its keys are sorted, nonempty and pairwise disjoint. -/
def Sorted (m : AllocMap) : Prop := KeysSorted Prod.fst m

instance (m : AllocMap) : Decidable (Sorted m) := inferInstanceAs (Decidable (KeysSorted _ m))

end AllocMap

namespace KeysSorted

variable {α : Type} {key : α → LiveRangeKey} {l : List α}

@[simp] theorem nil : KeysSorted key [] := ⟨.nil, by simp⟩

theorem cons_iff (a : α) : KeysSorted key (a :: l) ↔
    (key a).from < (key a).to ∧ (∀ b ∈ l, (key a).to ≤ (key b).from) ∧ KeysSorted key l := by
  constructor
  · rintro ⟨ordered, nonempty⟩
    rw [List.pairwise_cons] at ordered
    exact ⟨nonempty a (by simp), ordered.1,
      ⟨ordered.2, fun b member => nonempty b (List.mem_cons_of_mem _ member)⟩⟩
  · rintro ⟨here, before, ordered, nonempty⟩
    exact ⟨List.pairwise_cons.mpr ⟨before, ordered⟩, by simpa [here] using nonempty⟩

theorem sublist (sorted : KeysSorted key l) {l' : List α} (sub : l'.Sublist l) :
    KeysSorted key l' :=
  ⟨sorted.ordered.sublist sub, fun a member => sorted.nonempty a (sub.subset member)⟩

theorem append_iff {l₁ l₂ : List α} : KeysSorted key (l₁ ++ l₂) ↔
    KeysSorted key l₁ ∧ KeysSorted key l₂ ∧ ∀ a ∈ l₁, ∀ b ∈ l₂, (key a).to ≤ (key b).from := by
  constructor
  · intro sorted
    exact ⟨sorted.sublist (List.sublist_append_left _ _),
      sorted.sublist (List.sublist_append_right _ _),
      (List.pairwise_append.mp sorted.ordered).2.2⟩
  · rintro ⟨sorted₁, sorted₂, across⟩
    exact ⟨List.pairwise_append.mpr ⟨sorted₁.ordered, sorted₂.ordered, across⟩, by
      simpa [or_imp, forall_and] using And.intro sorted₁.nonempty sorted₂.nonempty⟩

/-- An item before `b` in a sorted list ends before `b` starts. -/
theorem before {l₁ l₂ : List α} {b : α} (sorted : KeysSorted key (l₁ ++ b :: l₂)) {a : α}
    (member : a ∈ l₁) : (key a).to ≤ (key b).from :=
  (append_iff.mp sorted).2.2 a member b (List.mem_cons_self _ _)

/-- Items of a sorted list whose keys overlap are the same item. -/
theorem eq_of_overlaps (sorted : KeysSorted key l) {a b : α} (memberA : a ∈ l) (memberB : b ∈ l)
    (overlap : (key a).Overlaps (key b)) : a = b := by
  induction l with
  | nil => simp at memberA
  | cons c rest ih =>
    obtain ⟨_, below, rest_sorted⟩ := (cons_iff c).mp sorted
    rcases List.mem_cons.mp memberA with rfl | inA <;>
      rcases List.mem_cons.mp memberB with rfl | inB
    · rfl
    · have := below b inB; have := overlap.1; omega
    · have := below a inA; have := overlap.2; omega
    · exact ih rest_sorted inA inB

theorem nodup (sorted : KeysSorted key l) : l.Nodup :=
  sorted.ordered.imp_of_mem fun {a _} member _ before same => by
    subst same
    have := sorted.nonempty a member; omega

/-- Two sorted lists with the same items are the same list. -/
theorem eq_of_perm {l' : List α} (sorted : KeysSorted key l) (sorted' : KeysSorted key l')
    (perm : l.Perm l') : l = l' := by
  induction l generalizing l' with
  | nil => exact perm.nil_eq
  | cons a rest ih =>
    cases l' with
    | nil => exact absurd perm.eq_nil (List.cons_ne_nil _ _)
    | cons b rest' =>
      obtain ⟨aNonempty, aBelow, restSorted⟩ := (cons_iff a).mp sorted
      obtain ⟨bNonempty, bBelow, restSorted'⟩ := (cons_iff b).mp sorted'
      by_cases same : a = b
      · subst same
        rw [ih restSorted restSorted' perm.cons_inv]
      · have aLater := (List.mem_cons.mp (perm.subset (List.mem_cons_self a rest))).resolve_left same
        have bLater := (List.mem_cons.mp (perm.symm.subset (List.mem_cons_self b rest'))).resolve_left
          (Ne.symm same)
        have := aBelow b bLater; have := bBelow a aLater; omega

end KeysSorted

namespace AllocMap

variable {m : AllocMap} {key : LiveRangeKey} {value : Option Nat}

theorem sorted_cons_iff (e : LiveRangeKey × Option Nat) :
    Sorted (e :: m) ↔ e.1.from < e.1.to ∧ (∀ e' ∈ m, e.1.to ≤ e'.1.from) ∧ Sorted m :=
  KeysSorted.cons_iff e

/-- A key overlapping no present key is inserted as a new entry, in order. -/
theorem insert_perm (fresh : ∀ e ∈ m, ¬ key.Overlaps e.1) :
    (insert key value m).Perm ((key, value) :: m) := by
  induction m with
  | nil => exact .refl _
  | cons e rest ih =>
    have fresh_rest : ∀ e' ∈ rest, ¬ key.Overlaps e'.1 := fun e' h => fresh e' (by simp [h])
    unfold insert
    split
    · exact ((ih fresh_rest).cons e).trans (.swap _ _ _)
    · rename_i equal
      exact absurd ((LiveRangeKey.cmp_eq_eq_iff _ _).mp equal) (fresh e (by simp))
    · exact .refl _

theorem sorted_insert (sorted : Sorted m) (nonempty : key.from < key.to)
    (fresh : ∀ e ∈ m, ¬ key.Overlaps e.1) : Sorted (insert key value m) := by
  induction m with
  | nil => exact (sorted_cons_iff _).mpr ⟨nonempty, by simp, KeysSorted.nil⟩
  | cons e rest ih =>
    obtain ⟨e_nonempty, below, rest_sorted⟩ := (sorted_cons_iff e).mp sorted
    have fresh_rest : ∀ e' ∈ rest, ¬ key.Overlaps e'.1 := fun e' h => fresh e' (by simp [h])
    unfold insert
    split
    · rename_i greater
      rw [LiveRangeKey.cmp_eq_gt_iff] at greater
      refine (sorted_cons_iff _).mpr ⟨e_nonempty, fun x member => ?_, ih rest_sorted fresh_rest⟩
      rcases List.mem_cons.mp ((insert_perm fresh_rest).subset member) with rfl | inRest
      · exact greater.2
      · exact below x inRest
    · rename_i equal
      exact absurd ((LiveRangeKey.cmp_eq_eq_iff _ _).mp equal) (fresh e (by simp))
    · rename_i less
      rw [LiveRangeKey.cmp_eq_lt_iff] at less
      refine (sorted_cons_iff _).mpr ⟨nonempty, fun x member => ?_, sorted⟩
      rcases List.mem_cons.mp member with rfl | inRest
      · exact less
      · show key.to ≤ x.1.from
        have := below x inRest; omega

/-- Removing the key of a present entry removes exactly that entry. -/
theorem remove_eq_erase (sorted : Sorted m) (member : (key, value) ∈ m) :
    remove key m = m.erase (key, value) := by
  induction m with
  | nil => simp at member
  | cons e rest ih =>
    have nonempty : key.from < key.to := sorted.nonempty _ member
    obtain ⟨e_nonempty, below, rest_sorted⟩ := (sorted_cons_iff e).mp sorted
    rcases List.mem_cons.mp member with rfl | inRest
    · have self : key.cmp key = .eq := (LiveRangeKey.cmp_eq_eq_iff _ _).mpr ⟨nonempty, nonempty⟩
      simp [remove, self]
    · have below : e.1.to ≤ key.from := below _ inRest
      have different : e ≠ (key, value) := by
        rintro rfl; simp only at below e_nonempty; omega
      have greater : key.cmp e.1 = .gt := by
        rw [LiveRangeKey.cmp_eq_gt_iff]; omega
      simp [remove, greater, ih rest_sorted inRest, List.erase_cons, different]

/-- In a sorted map, `remove` takes out exactly the entry with that key. -/
theorem perm_cons_remove (sorted : Sorted m) (member : (key, value) ∈ m) :
    m.Perm ((key, value) :: remove key m) := by
  obtain ⟨before, after, -, whole, erased⟩ := List.exists_erase_eq member
  rw [remove_eq_erase sorted member, erased]
  conv_lhs => rw [whole]
  exact List.perm_middle

theorem remove_sublist (key : LiveRangeKey) : ∀ m : AllocMap, (remove key m).Sublist m
  | [] => .slnil
  | e :: rest => by
    unfold remove
    split
    · exact (remove_sublist key rest).cons₂ e
    · exact List.sublist_cons_self e rest
    · exact List.Sublist.refl _

/-- `range(key..)` drops the leading entries that end by `key.from`. -/
theorem rangeFrom_eq_dropWhile (key : LiveRangeKey) (m : AllocMap) :
    rangeFrom key m = m.dropWhile (fun e => decide (e.1.to ≤ key.from)) := by
  simp only [rangeFrom, LiveRangeKey.cmp_eq_lt_iff]

/-- In a sorted map `range(key..)` keeps exactly the entries ending after `key.from`. -/
theorem rangeFrom_eq_filter (sorted : Sorted m) :
    rangeFrom key m = m.filter (fun e => key.from < e.1.to) := by
  induction m with
  | nil => rfl
  | cons e rest ih =>
    obtain ⟨e_nonempty, below, rest_sorted⟩ := (sorted_cons_iff e).mp sorted
    by_cases before : e.1.to ≤ key.from
    · have : ¬ key.from < e.1.to := by omega
      simp [rangeFrom, List.dropWhile_cons, before, this, ← ih rest_sorted]
    · have keep : ∀ e' ∈ rest, key.from < e'.1.to := fun e' h => by
        have := below e' h; have := rest_sorted.nonempty e' h; omega
      rw [List.filter_cons_of_pos (by simpa using before),
        List.filter_eq_self.mpr (by simpa using keep)]
      simp [rangeFrom, List.dropWhile_cons, before]

theorem sorted_rangeFrom (sorted : Sorted m) : Sorted (rangeFrom key m) :=
  sorted.sublist (List.dropWhile_sublist _)

end AllocMap

end IonRegalloc
