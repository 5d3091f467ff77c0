/-
Fixed-width integer arithmetic, checked.

An integer type is its range of values.  Each operation computes on `ℤ` and
returns the result only where the type holds it, so a run that returns a value
is one in which nothing wrapped and nothing overflowed.

- `IntType.add_eq`, `mul_eq`, `div_eq`, and the same names of `WordType`: inside the
  range the operations agree with those of `ℤ` and `ℕ`.
-/
import Mathlib.Tactic

namespace MachineInt

/-- Run past an operation that is known to succeed. -/
theorem bind_of_eq {α β : Type} {x : Option α} {a : α} (h : x = some a) (f : α → Option β) :
    (x >>= f) = f a := by
  rw [h]
  rfl

/-- An integer type, as the range it represents. -/
structure IntType where
  min : ℤ
  max : ℤ
  deriving DecidableEq, Repr

/-- The two's-complement type of `w` bits. -/
def signed (w : ℕ) : IntType := ⟨-2 ^ (w - 1), 2 ^ (w - 1) - 1⟩

/-- The unsigned type of `w` bits. -/
def unsigned (w : ℕ) : IntType := ⟨0, 2 ^ w - 1⟩

namespace IntType

variable (t : IntType)

/-- The values of the type. -/
def Holds (v : ℤ) : Prop := t.min ≤ v ∧ v ≤ t.max

instance (v : ℤ) : Decidable (t.Holds v) := inferInstanceAs (Decidable (_ ∧ _))

/-- Store a result, `none` where the type cannot hold it. -/
def fit (v : ℤ) : Option ℤ := if t.Holds v then some v else none

def add (a b : ℤ) : Option ℤ := t.fit (a + b)

def mul (a b : ℤ) : Option ℤ := t.fit (a * b)

/-- Truncating division; a zero divisor has no result. -/
def div (a b : ℤ) : Option ℤ := if b = 0 then none else t.fit (a.tdiv b)

variable {t}

theorem fit_eq {v : ℤ} (h : t.Holds v) : t.fit v = some v := if_pos h

theorem add_eq {a b : ℤ} (h : t.Holds (a + b)) : t.add a b = some (a + b) := fit_eq h

theorem mul_eq {a b : ℤ} (h : t.Holds (a * b)) : t.mul a b = some (a * b) := fit_eq h

/-- On non-negative operands truncation is the floor. -/
theorem div_eq {a b : ℤ} (ha : 0 ≤ a) (hb : 0 < b) (h : t.Holds a) (hmin : t.min ≤ 0) :
    t.div a b = some (a / b) := by
  have hle : a / b ≤ a := Int.ediv_le_self b ha
  have hpos : 0 ≤ a / b := Int.ediv_nonneg ha hb.le
  unfold div
  rw [if_neg hb.ne', Int.tdiv_eq_ediv_of_nonneg ha]
  exact fit_eq ⟨hmin.trans hpos, hle.trans h.2⟩

end IntType

/-! ### Unsigned words -/

/-- An unsigned type of `w` bits, with its values as natural numbers. -/
structure WordType where
  bits : ℕ

namespace WordType

variable (t : WordType)

/-- Store a result, `none` where it wraps. -/
def fit (v : ℕ) : Option ℕ := if v < 2 ^ t.bits then some v else none

/-- Convert a signed value, `none` where it wraps. -/
def ofInt (v : ℤ) : Option ℕ := if 0 ≤ v then t.fit v.toNat else none

def add (a b : ℕ) : Option ℕ := t.fit (a + b)

/-- Subtraction; a larger subtrahend wraps. -/
def sub (a b : ℕ) : Option ℕ := if b ≤ a then t.fit (a - b) else none

def mul (a b : ℕ) : Option ℕ := t.fit (a * b)

/-- Division; a zero divisor has no result. -/
def div (a b : ℕ) : Option ℕ := if b = 0 then none else t.fit (a / b)

variable {t}

theorem fit_eq {v : ℕ} (h : v < 2 ^ t.bits) : t.fit v = some v := if_pos h

theorem ofInt_eq {v : ℤ} (hpos : 0 ≤ v) (h : v.toNat < 2 ^ t.bits) :
    t.ofInt v = some v.toNat := by
  unfold ofInt
  rw [if_pos hpos, fit_eq h]

theorem add_eq {a b : ℕ} (h : a + b < 2 ^ t.bits) : t.add a b = some (a + b) := fit_eq h

theorem sub_eq {a b : ℕ} (hle : b ≤ a) (h : a < 2 ^ t.bits) : t.sub a b = some (a - b) := by
  unfold sub
  rw [if_pos hle, fit_eq (by omega)]

theorem mul_eq {a b : ℕ} (h : a * b < 2 ^ t.bits) : t.mul a b = some (a * b) := fit_eq h

theorem div_eq {a b : ℕ} (hb : 0 < b) (h : a < 2 ^ t.bits) : t.div a b = some (a / b) := by
  have hle : a / b ≤ a := Nat.div_le_self a b
  unfold div
  rw [if_neg hb.ne', fit_eq (hle.trans_lt h)]

end WordType

end MachineInt
