import Mathlib.Order.Basic
import Mathlib.Tactic.Common

/-! Program points as the natural number `inst << 1 | pos`, code ranges, and the overlap-ordered
keys of the PReg maps; `prev` wraps like the `u32` it is. -/

namespace IonRegalloc

/-- `u32::MAX`, what a `u32` subtraction below zero wraps to. -/
def u32Max : Nat := 0xFFFFFFFF

/-- Addition of two `u32` values in a release build: it wraps. -/
def u32Add (a b : Nat) : Nat := (a + b) % (u32Max + 1)

inductive InstPosition where
  | before
  | after
deriving DecidableEq, Repr

namespace ProgPoint

def before (inst : Nat) : Nat := 2 * inst

def after (inst : Nat) : Nat := 2 * inst + 1

def inst (p : Nat) : Nat := p / 2

def pos (p : Nat) : InstPosition := if p % 2 = 0 then .before else .after

def next (p : Nat) : Nat := p + 1

/-- `bits - 1` on a `u32`: at point 0 it wraps to `u32::MAX`. -/
def prev (p : Nat) : Nat := if p = 0 then u32Max else p - 1

def fromIndex (index : Nat) : Nat := index

@[simp] theorem before_eq (i : Nat) : before i = 2 * i := rfl
@[simp] theorem after_eq (i : Nat) : after i = 2 * i + 1 := rfl
@[simp] theorem inst_eq (p : Nat) : inst p = p / 2 := rfl
@[simp] theorem next_eq (p : Nat) : next p = p + 1 := rfl
@[simp] theorem fromIndex_eq (i : Nat) : fromIndex i = i := rfl

theorem prev_of_pos {p : Nat} (positive : 0 < p) : prev p = p - 1 := by
  simp [prev, Nat.pos_iff_ne_zero.mp positive]

@[simp] theorem pos_eq_after_iff (p : Nat) : pos p = .after ↔ p % 2 = 1 := by
  unfold pos; by_cases h : p % 2 = 0 <;> simp [h]; omega

@[simp] theorem pos_eq_before_iff (p : Nat) : pos p = .before ↔ p % 2 = 0 := by
  unfold pos; by_cases h : p % 2 = 0 <;> simp [h]

end ProgPoint

/-- A half-open range `[from, to)` of program points. -/
structure CodeRange where
  «from» : Nat
  «to» : Nat
deriving DecidableEq, Repr, Inhabited

/-- Modelled from the spec, which derives the priority from the total live length: the number of
program points in the range. `CodeRange::len`, not under src/, counts instructions instead. -/
def CodeRange.len (r : CodeRange) : Nat := r.to - r.from

/-- The key a PReg map stores for a range: `LiveRangeKey { from, to }`. -/
structure LiveRangeKey where
  «from» : Nat
  «to» : Nat
deriving DecidableEq, Repr, Inhabited

namespace LiveRangeKey

def fromRange (range : CodeRange) : LiveRangeKey := ⟨range.from, range.to⟩

def toRange (key : LiveRangeKey) : CodeRange := ⟨key.from, key.to⟩

@[simp] theorem fromRange_from (r : CodeRange) : (fromRange r).from = r.from := rfl
@[simp] theorem fromRange_to (r : CodeRange) : (fromRange r).to = r.to := rfl

/-- `Ord for LiveRangeKey`: keys that overlap compare `Equal`, otherwise by position. -/
def cmp (a b : LiveRangeKey) : Ordering :=
  if a.to ≤ b.from then .lt else if a.from ≥ b.to then .gt else .eq

/-- Two keys share a program point. This is when `cmp` answers `Equal`. -/
def Overlaps (a b : LiveRangeKey) : Prop := b.from < a.to ∧ a.from < b.to

instance (a b : LiveRangeKey) : Decidable (a.Overlaps b) :=
  inferInstanceAs (Decidable (_ ∧ _))

@[simp] theorem cmp_eq_lt_iff (a b : LiveRangeKey) : a.cmp b = .lt ↔ a.to ≤ b.from := by
  unfold cmp; split <;> [simp_all; split <;> simp_all]

@[simp] theorem cmp_eq_gt_iff (a b : LiveRangeKey) :
    a.cmp b = .gt ↔ b.from < a.to ∧ b.to ≤ a.from := by
  unfold cmp; split <;> [simp_all; split <;> simp_all]

@[simp] theorem cmp_eq_eq_iff (a b : LiveRangeKey) : a.cmp b = .eq ↔ a.Overlaps b := by
  unfold cmp Overlaps; split <;> [simp_all; split <;> simp_all]

theorem Overlaps.symm {a b : LiveRangeKey} (h : a.Overlaps b) : b.Overlaps a := ⟨h.2, h.1⟩

theorem overlaps_comm (a b : LiveRangeKey) : a.Overlaps b ↔ b.Overlaps a := ⟨.symm, .symm⟩

end LiveRangeKey

end IonRegalloc
