/-
The [1 2 1] smoothing of a plane, in two rounded stages with replicated edges.

`tap` is one stage on three neighbours, rounded half up; `smooth` takes it along
the rows and then down the columns; `exactSmooth` is the 3×3 convolution that
the two stages round.

- `tap_error`, `smooth_error`: each stage is biased by [-1/4, 1/2], both by
  [-1/2, 1].
- `smooth_mirror_cols`, `smooth_mirror_rows`, `smooth_add`, `smooth_const`: the
  symmetries of the kernel survive the rounding and the replicated edges.
- `sharpen`: the unsharp mask over that smoothing, with the same symmetries.
-/
import Mathlib.Tactic

namespace RoundedStencil

/-! ### Neighbours on an axis with replicated edges -/

/-- The position before `i`, the first one standing in for its own. -/
def before (i : ℕ) : ℕ := if i > 0 then i - 1 else 0

/-- The position after `i` on an axis of `n`, the last one standing in for its
own. -/
def after (n i : ℕ) : ℕ := if i < n - 1 then i + 1 else n - 1

/-- The position seen from the other end of the axis. -/
def mirror (n i : ℕ) : ℕ := n - 1 - i

variable {n i : ℕ}

theorem before_lt (hi : i < n) : before i < n := by
  unfold before
  split <;> omega

theorem after_lt (hi : i < n) : after n i < n := by
  unfold after
  split <;> omega

theorem mirror_lt (hi : i < n) : mirror n i < n := by
  unfold mirror
  omega

/-- The neighbours trade places in the mirror. -/
theorem mirror_before (hi : i < n) : mirror n (before i) = after n (mirror n i) := by
  unfold mirror before after
  split_ifs <;> omega

theorem mirror_after (hi : i < n) : mirror n (after n i) = before (mirror n i) := by
  unfold mirror before after
  split_ifs <;> omega

/-- A position clamped to the axis: the edges are replicated outwards. -/
def replicated (n : ℕ) (i : ℤ) : ℕ := (max 0 (min i (n - 1))).toNat

theorem replicated_pred (hi : i < n) : replicated n (i - 1) = before i := by
  unfold replicated before
  split <;> omega

theorem replicated_self (hi : i < n) : replicated n i = i := by
  unfold replicated
  omega

theorem replicated_succ (hi : i < n) : replicated n (i + 1) = after n i := by
  unfold replicated after
  split <;> omega

/-! ### One stage -/

/-- `(l + 2 m + r) / 4`, rounded half up. -/
def tap (l m r : ℤ) : ℤ := (l + 2 * m + r + 2) / 4

theorem tap_comm (l m r : ℤ) : tap r m l = tap l m r := by
  unfold tap
  congr 1
  ring

theorem tap_const (v : ℤ) : tap v v v = v := by
  unfold tap
  omega

theorem tap_add (l m r k : ℤ) : tap (l + k) (m + k) (r + k) = tap l m r + k := by
  unfold tap
  omega

/-- Four times a stage: at most one below the exact sum, at most two above. -/
theorem tap_error (l m r : ℤ) :
    l + 2 * m + r - 1 ≤ 4 * tap l m r ∧ 4 * tap l m r ≤ l + 2 * m + r + 2 := by
  unfold tap
  omega

/-! ### Both stages -/

/-- The first stage, along the row. -/
def smoothRow (row : ℕ → ℤ) (w x : ℕ) : ℤ := tap (row (before x)) (row x) (row (after w x))

/-- The second stage, down the column of first stages. -/
def smooth (f : ℕ → ℕ → ℤ) (h w y x : ℕ) : ℤ :=
  tap (smoothRow (f (before y)) w x) (smoothRow (f y) w x) (smoothRow (f (after h y)) w x)

/-- The weights of an axis. -/
def kernel : Fin 3 → ℤ := ![1, 2, 1]

/-- The convolution with the 3×3 kernel, in sixteenths. -/
def kernelSum (f : ℕ → ℕ → ℤ) (h w y x : ℕ) : ℤ :=
  ∑ i : Fin 3, ∑ j : Fin 3, kernel i * kernel j *
    f (replicated h (y + (i.val - 1))) (replicated w (x + (j.val - 1)))

/-- The exact convolution. -/
def exactSmooth (f : ℕ → ℕ → ℤ) (h w y x : ℕ) : ℚ := kernelSum f h w y x / 16

section Plane

variable {f g : ℕ → ℕ → ℤ} {h w y x : ℕ}

/-- The nine terms, row by row. -/
theorem kernelSum_eq (hy : y < h) (hx : x < w) :
    kernelSum f h w y x =
      (f (before y) (before x) + 2 * f (before y) x + f (before y) (after w x))
        + 2 * (f y (before x) + 2 * f y x + f y (after w x))
        + (f (after h y) (before x) + 2 * f (after h y) x + f (after h y) (after w x)) := by
  have hpred : ∀ {n i : ℕ}, i < n → replicated n (i + (((0 : Fin 3).val : ℤ) - 1)) = before i :=
    fun hi => replicated_pred hi
  have hself : ∀ {n i : ℕ}, i < n → replicated n (i + (((1 : Fin 3).val : ℤ) - 1)) = i := by
    intro n i hi
    show replicated n (i + (1 - 1)) = i
    rw [sub_self, add_zero]
    exact replicated_self hi
  have hsucc : ∀ {n i : ℕ}, i < n → replicated n (i + (((2 : Fin 3).val : ℤ) - 1)) = after n i :=
    fun hi => replicated_succ hi
  unfold kernelSum
  simp only [Fin.sum_univ_three, hpred hy, hself hy, hsucc hy, hpred hx, hself hx, hsucc hx]
  simp only [kernel, Matrix.cons_val_zero, Matrix.cons_val_one, Matrix.cons_val]
  ring

/-- The two roundings together: at most half below, at most one above. -/
theorem smooth_error (hy : y < h) (hx : x < w) :
    kernelSum f h w y x - 8 ≤ 16 * smooth f h w y x ∧
      16 * smooth f h w y x ≤ kernelSum f h w y x + 16 := by
  have hup := tap_error (f (before y) (before x)) (f (before y) x) (f (before y) (after w x))
  have hmid := tap_error (f y (before x)) (f y x) (f y (after w x))
  have hdn := tap_error (f (after h y) (before x)) (f (after h y) x) (f (after h y) (after w x))
  have hcol := tap_error (smoothRow (f (before y)) w x) (smoothRow (f y) w x)
    (smoothRow (f (after h y)) w x)
  rw [kernelSum_eq hy hx]
  unfold smooth
  unfold smoothRow at hcol ⊢
  omega

theorem smooth_error_rat (hy : y < h) (hx : x < w) :
    -(1 / 2) ≤ (smooth f h w y x : ℚ) - exactSmooth f h w y x ∧
      (smooth f h w y x : ℚ) - exactSmooth f h w y x ≤ 1 := by
  obtain ⟨hlo, hhi⟩ := smooth_error (f := f) hy hx
  have hlo' : (kernelSum f h w y x : ℚ) - 8 ≤ 16 * smooth f h w y x := by exact_mod_cast hlo
  have hhi' : (16 * smooth f h w y x : ℚ) ≤ kernelSum f h w y x + 16 := by exact_mod_cast hhi
  unfold exactSmooth
  constructor <;> linarith

/-- The smoothing looks at the plane only. -/
theorem smooth_congr (hfg : ∀ y < h, ∀ x < w, f y x = g y x) (hy : y < h) (hx : x < w) :
    smooth f h w y x = smooth g h w y x := by
  have hrow : ∀ y < h, smoothRow (f y) w x = smoothRow (g y) w x := by
    intro y hy
    unfold smoothRow
    rw [hfg y hy _ (before_lt hx), hfg y hy x hx, hfg y hy _ (after_lt hx)]
  unfold smooth
  rw [hrow _ (before_lt hy), hrow y hy, hrow _ (after_lt hy)]

/-- Mirroring the columns commutes with the smoothing. -/
theorem smooth_mirror_cols (f : ℕ → ℕ → ℤ) (h y : ℕ) (hx : x < w) :
    smooth (fun y x => f y (mirror w x)) h w y x = smooth f h w y (mirror w x) := by
  have hrow : ∀ y, smoothRow (fun x => f y (mirror w x)) w x = smoothRow (f y) w (mirror w x) := by
    intro y
    show tap (f y (mirror w (before x))) (f y (mirror w x)) (f y (mirror w (after w x))) = _
    rw [mirror_before hx, mirror_after hx, tap_comm]
    rfl
  unfold smooth
  rw [hrow, hrow, hrow]

/-- Mirroring the rows commutes with the smoothing. -/
theorem smooth_mirror_rows (f : ℕ → ℕ → ℤ) (w x : ℕ) (hy : y < h) :
    smooth (fun y x => f (mirror h y) x) h w y x = smooth f h w (mirror h y) x := by
  show tap (smoothRow (f (mirror h (before y))) w x) (smoothRow (f (mirror h y)) w x)
    (smoothRow (f (mirror h (after h y))) w x) = _
  rw [mirror_before hy, mirror_after hy, tap_comm]
  rfl

/-- Adding a constant commutes with the smoothing. -/
theorem smooth_add (f : ℕ → ℕ → ℤ) (k : ℤ) (h w y x : ℕ) :
    smooth (fun y x => f y x + k) h w y x = smooth f h w y x + k := by
  have hrow : ∀ y, smoothRow (fun x => f y x + k) w x = smoothRow (f y) w x + k := fun y =>
    tap_add _ _ _ _
  unfold smooth
  rw [hrow, hrow, hrow, tap_add]

/-- A constant plane is smooth already. -/
theorem smooth_const (v : ℤ) (h w y x : ℕ) : smooth (fun _ _ => v) h w y x = v := by
  have hrow : smoothRow (fun _ => v) w x = v := tap_const v
  unfold smooth
  rw [hrow, tap_const]

/-! ### Sharpening -/

/-- The plane plus its detail scaled by `a / 256`, rounded down. -/
def sharpen (f : ℕ → ℕ → ℤ) (a : ℤ) (h w y x : ℕ) : ℤ :=
  f y x + a * (f y x - smooth f h w y x) / 256

theorem sharpen_congr (hfg : ∀ y < h, ∀ x < w, f y x = g y x) (a : ℤ) (hy : y < h) (hx : x < w) :
    sharpen f a h w y x = sharpen g a h w y x := by
  unfold sharpen
  rw [smooth_congr hfg hy hx, hfg y hy x hx]

theorem sharpen_mirror_cols (f : ℕ → ℕ → ℤ) (a : ℤ) (h y : ℕ) (hx : x < w) :
    sharpen (fun y x => f y (mirror w x)) a h w y x = sharpen f a h w y (mirror w x) := by
  unfold sharpen
  rw [smooth_mirror_cols f h y hx]

theorem sharpen_mirror_rows (f : ℕ → ℕ → ℤ) (a : ℤ) (w x : ℕ) (hy : y < h) :
    sharpen (fun y x => f (mirror h y) x) a h w y x = sharpen f a h w (mirror h y) x := by
  unfold sharpen
  rw [smooth_mirror_rows f w x hy]

/-- A constant has no detail. -/
theorem sharpen_add (f : ℕ → ℕ → ℤ) (a k : ℤ) (h w y x : ℕ) :
    sharpen (fun y x => f y x + k) a h w y x = sharpen f a h w y x + k := by
  unfold sharpen
  rw [smooth_add, add_sub_add_right_eq_sub, add_right_comm]

theorem sharpen_const (v a : ℤ) (h w y x : ℕ) : sharpen (fun _ _ => v) a h w y x = v := by
  unfold sharpen
  rw [smooth_const, sub_self, mul_zero, Int.zero_ediv, add_zero]

end Plane

end RoundedStencil
