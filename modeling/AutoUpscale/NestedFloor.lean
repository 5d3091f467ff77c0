/-
Rounding down, nested.

A map is superadditive when it takes no sum below the sum of its values.  A
quotient rounded down is, and so is any chain of monotone superadditive maps,
however often it rounds.  What a chain of roundings still promises:

- `Superadditive.comp`: the chain is superadditive again;
- `lt_scaled_add_two`: two roundings of one quotient lose less than two.
-/
import Mathlib.Tactic

namespace NestedFloor

variable {α β γ : Type*}

/-- No sum is taken below the sum of the values. -/
def Superadditive [Add α] [Add β] [LE β] (f : α → β) : Prop :=
  ∀ x y, f x + f y ≤ f (x + y)

/-- A monotone superadditive map of a superadditive map is superadditive. -/
theorem Superadditive.comp [Add α] [Add β] [Preorder β] [Add γ] [Preorder γ]
    {g : β → γ} {f : α → β} (hg : Superadditive g) (hmono : Monotone g)
    (hf : Superadditive f) : Superadditive (g ∘ f) := by
  intro x y
  calc g (f x) + g (f y) ≤ g (f x + f y) := hg _ _
    _ ≤ g (f (x + y)) := hmono (hf x y)

/-! ### Quotients -/

/-- The largest integer below the exact multiple `k * p / q`. -/
def scaled (p q k : ℤ) : ℤ := k * p / q

theorem scaled_mono {p q : ℤ} (hp : 0 ≤ p) (hq : 0 < q) : Monotone (scaled p q) := by
  intro j k hjk
  exact Int.ediv_le_ediv hq (mul_le_mul_of_nonneg_right hjk hp)

theorem scaled_superadditive (p : ℤ) {q : ℤ} (hq : 0 < q) : Superadditive (scaled p q) := by
  intro j k
  show j * p / q + k * p / q ≤ (j + k) * p / q
  rw [Int.le_ediv_iff_mul_le hq]
  have hj : j * p / q * q ≤ j * p := Int.ediv_mul_le _ hq.ne'
  have hk : k * p / q * q ≤ k * p := Int.ediv_mul_le _ hq.ne'
  calc (j * p / q + k * p / q) * q = j * p / q * q + k * p / q * q := add_mul _ _ _
    _ ≤ j * p + k * p := add_le_add hj hk
    _ = (j + k) * p := (add_mul _ _ _).symm

/-- Coarser quotients are smaller. -/
theorem scaled_anti {p q q' k : ℤ} (hkp : 0 ≤ k * p) (hq : 0 < q) (hqq : q ≤ q') :
    scaled p q' k ≤ scaled p q k := by
  have hq' : 0 < q' := hq.trans_le hqq
  have hpos : 0 ≤ k * p / q' := Int.ediv_nonneg hkp hq'.le
  show k * p / q' ≤ k * p / q
  rw [Int.le_ediv_iff_mul_le hq]
  calc k * p / q' * q ≤ k * p / q' * q' := mul_le_mul_of_nonneg_left hqq hpos
    _ ≤ k * p := Int.ediv_mul_le _ hq'.ne'

/-- The exact multiple is less than one above the quotient. -/
theorem lt_scaled_add_one {p q k : ℤ} (hq : 0 < q) : k * p < (scaled p q k + 1) * q :=
  Int.lt_ediv_add_one_mul_self _ hq

theorem scaled_mul_le {p q k : ℤ} (hq : 0 < q) : scaled p q k * q ≤ k * p :=
  Int.ediv_mul_le _ hq.ne'

/-- A value at most one below the quotient is less than two below the exact
multiple. -/
theorem lt_scaled_add_two {p q k s : ℤ} (hq : 0 < q) (hs : scaled p q k ≤ s + 1) :
    k * p < (s + 2) * q := by
  calc k * p < (scaled p q k + 1) * q := lt_scaled_add_one hq
    _ ≤ (s + 2) * q := mul_le_mul_of_nonneg_right (by omega) hq.le

end NestedFloor
