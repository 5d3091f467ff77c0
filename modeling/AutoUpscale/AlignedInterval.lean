/-
Intervals with ends on multiples of `k`.

`roundUp k` and `roundDown k` are the two neighbouring multiples of a number,
each characterized by the multiples on its side.

- `roundUp_le_iff`, `le_roundDown_iff`: the two adjunctions.
- `largest_iff`: an interval has a largest aligned interval inside it exactly
  when the rounded ends are still apart, and it is the one between them.
- `and_highBits`: a mask that keeps the high bits of a word rounds down.
-/
import Mathlib.Tactic
import Mathlib.Data.Nat.Bitwise

namespace AlignedInterval

/-- The first multiple of `k` from `n` on. -/
def roundUp (k n : ℕ) : ℕ := (n + (k - 1)) / k * k

/-- The last multiple of `k` up to `n`. -/
def roundDown (k n : ℕ) : ℕ := n / k * k

variable {k n m : ℕ}

theorem roundDown_le (k n : ℕ) : roundDown k n ≤ n := Nat.div_mul_le_self n k

theorem dvd_roundDown (k n : ℕ) : k ∣ roundDown k n := Dvd.intro_left _ rfl

theorem dvd_roundUp (k n : ℕ) : k ∣ roundUp k n := Dvd.intro_left _ rfl

theorem lt_roundDown_add (hk : 0 < k) (n : ℕ) : n < roundDown k n + k := by
  have hlt := Nat.lt_div_mul_add (a := n) hk
  exact hlt

/-- **Rounding down is the right adjoint** of the inclusion of the multiples. -/
theorem le_roundDown_iff (hk : 0 < k) (hm : k ∣ m) : m ≤ roundDown k n ↔ m ≤ n := by
  obtain ⟨c, rfl⟩ := hm
  constructor
  · intro h
    exact h.trans (roundDown_le k n)
  · intro h
    rw [mul_comm] at h ⊢
    exact Nat.mul_le_mul_right k ((Nat.le_div_iff_mul_le hk).mpr h)

theorem roundUp_eq_roundDown (k n : ℕ) : roundUp k n = roundDown k (n + (k - 1)) := rfl

theorem le_roundUp (hk : 0 < k) (n : ℕ) : n ≤ roundUp k n := by
  have hlt := lt_roundDown_add hk (n + (k - 1))
  rw [roundUp_eq_roundDown]
  omega

theorem roundUp_lt_add (hk : 0 < k) (n : ℕ) : roundUp k n < n + k := by
  have hle := roundDown_le k (n + (k - 1))
  rw [roundUp_eq_roundDown]
  omega

/-- **Rounding up is the left adjoint** of the inclusion of the multiples. -/
theorem roundUp_le_iff (hk : 0 < k) (hm : k ∣ m) : roundUp k n ≤ m ↔ n ≤ m := by
  constructor
  · intro h
    exact (le_roundUp hk n).trans h
  · intro h
    -- the next multiple after `m` is already out of reach
    have hnext : ¬ m + k ≤ roundUp k n := by
      intro hle
      have hlt := roundUp_lt_add hk n
      omega
    by_contra hgt
    obtain ⟨c, rfl⟩ := hm
    obtain ⟨d, hd⟩ := dvd_roundUp k n
    rw [hd] at hnext hgt
    have hcd : c < d := lt_of_mul_lt_mul_left (not_le.mp hgt) (Nat.zero_le k)
    have hmul : k * (c + 1) ≤ k * d := Nat.mul_le_mul_left k hcd
    exact hnext (by linarith [mul_add k c 1])

theorem roundUp_of_dvd (hk : 0 < k) (h : k ∣ n) : roundUp k n = n :=
  le_antisymm ((roundUp_le_iff hk h).mpr le_rfl) (le_roundUp hk n)

theorem roundDown_of_dvd (h : k ∣ n) : roundDown k n = n := Nat.div_mul_cancel h

/-! ### The largest aligned interval -/

/-- A non-empty interval `[a, b)` with ends on multiples of `k`, inside `[s, e)`. -/
structure Inside (k s e a b : ℕ) : Prop where
  lt : a < b
  dvd_start : k ∣ a
  dvd_end : k ∣ b
  le_start : s ≤ a
  end_le : b ≤ e

/-- The aligned interval inside `[s, e)` that contains all others. -/
structure Largest (k s e a b : ℕ) : Prop extends Inside k s e a b where
  contains : ∀ a' b', Inside k s e a' b' → a ≤ a' ∧ b' ≤ b

variable {s e a b a' b' : ℕ}

theorem Inside.rounded (hk : 0 < k) (h : Inside k s e a b) :
    roundUp k s ≤ a ∧ b ≤ roundDown k e :=
  ⟨(roundUp_le_iff hk h.dvd_start).mpr h.le_start, (le_roundDown_iff hk h.dvd_end).mpr h.end_le⟩

/-- Two multiples apart by less than one step leave no room. -/
theorem exists_inside_iff (hk : 0 < k) :
    (∃ a b, Inside k s e a b) ↔ roundUp k s < roundDown k e := by
  constructor
  · rintro ⟨a, b, h⟩
    obtain ⟨ha, hb⟩ := h.rounded hk
    exact (ha.trans_lt h.lt).trans_le hb
  · intro hlt
    exact ⟨_, _, hlt, dvd_roundUp k s, dvd_roundDown k e, le_roundUp hk s, roundDown_le k e⟩

theorem largest_of_lt (hk : 0 < k) (hlt : roundUp k s < roundDown k e) :
    Largest k s e (roundUp k s) (roundDown k e) where
  lt := hlt
  dvd_start := dvd_roundUp k s
  dvd_end := dvd_roundDown k e
  le_start := le_roundUp hk s
  end_le := roundDown_le k e
  contains := fun _ _ h => h.rounded hk

theorem Largest.unique (h : Largest k s e a b) (h' : Largest k s e a' b') : a = a' ∧ b = b' := by
  obtain ⟨hstart, hend⟩ := h.contains a' b' h'.toInside
  obtain ⟨hstart', hend'⟩ := h'.contains a b h.toInside
  exact ⟨le_antisymm hstart hstart', le_antisymm hend' hend⟩

/-- **The largest aligned interval** lies between the rounded ends, and exists
exactly when these are apart. -/
theorem largest_iff (hk : 0 < k) :
    Largest k s e a b ↔
      roundUp k s < roundDown k e ∧ a = roundUp k s ∧ b = roundDown k e := by
  constructor
  · intro h
    have hlt := (exists_inside_iff hk).mp ⟨a, b, h.toInside⟩
    exact ⟨hlt, h.unique (largest_of_lt hk hlt)⟩
  · rintro ⟨hlt, rfl, rfl⟩
    exact largest_of_lt hk hlt

/-! ### Masks -/

/-- **Keeping the high bits** of a `w`-bit word rounds down to a power of two. -/
theorem and_highBits {w j v : ℕ} (hj : j ≤ w) (hv : v < 2 ^ w) :
    v &&& (2 ^ w - 2 ^ j) = roundDown (2 ^ j) v := by
  have hmask : 2 ^ w - 2 ^ j = 2 ^ j * (2 ^ (w - j) - 1) := by
    rw [Nat.mul_sub_one, ← pow_add, Nat.add_sub_cancel' hj]
  rw [hmask, roundDown, mul_comm (v / 2 ^ j)]
  refine Nat.eq_of_testBit_eq fun i => ?_
  rw [Nat.testBit_and, Nat.testBit_two_pow_mul, Nat.testBit_two_pow_mul, Nat.testBit_two_pow_sub_one,
    Nat.testBit_div_two_pow]
  by_cases hi : j ≤ i
  · rw [show i - j + j = i by omega]
    by_cases hw : i < w
    · simp [hi, show i - j < w - j by omega]
    · -- no bit of `v` is that high
      have hzero : v.testBit i = false :=
        Nat.testBit_lt_two_pow (hv.trans_le (Nat.pow_le_pow_right two_pos (not_lt.mp hw)))
      simp [hzero]
  · simp [hi]

end AlignedInterval
