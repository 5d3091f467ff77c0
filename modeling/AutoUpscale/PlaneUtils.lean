/-
The even-aligned one-dimensional partition and the worker-grid search of
`src/plane_utils.h`.

`computeStripeBounds i n src dst` gives stripe `i` of `n` its source and
destination range on one axis (row stripes on heights, column tiles on
widths); `decideTileGrid` searches the (rows × cols) worker grid.  The facts
every client needs are here:

* `computeStripeBounds_of_valid` — the four bounds are two consecutive values
  of the cut functions `dstCut` and `srcCut`;
* `dstCut_mono`, `srcCut_mono`, `dstCut_even`, `srcCut_even` — the cuts ascend
  and every internal cut is even;
* `largestValidSplit_spec` and `decideTileGrid_optimal` — the two searches
  return the best candidate of their range.

A C `int` is an integer here.  The quotients inside `computeStripeBounds` are
taken behind the argument guard, on non-negative operands, where the division
of C and the one of `ℤ` agree; `tileAxisLimit` divides an unchecked extent and
therefore uses the truncating `Int.tdiv`.
-/
import Mathlib.Tactic

namespace AutoUpscale

/-- `UP_ALIGN_DOWN_2`: clear the lowest bit. -/
def alignDown2 (x : ℤ) : ℤ := x - x % 2

theorem alignDown2_le (x : ℤ) : alignDown2 x ≤ x := by
  unfold alignDown2
  omega

theorem alignDown2_even (x : ℤ) : alignDown2 x % 2 = 0 := by
  unfold alignDown2
  omega

theorem alignDown2_mono {x y : ℤ} (h : x ≤ y) : alignDown2 x ≤ alignDown2 y := by
  unfold alignDown2
  omega

theorem alignDown2_nonneg {x : ℤ} (h : 0 ≤ x) : 0 ≤ alignDown2 x := by
  unfold alignDown2
  omega

@[simp] theorem alignDown2_zero : alignDown2 0 = 0 := rfl

/-- Adding an even amount commutes with the alignment. -/
theorem alignDown2_add_even (x : ℤ) {m : ℤ} (hm : m % 2 = 0) :
    alignDown2 (x + m) = alignDown2 x + m := by
  unfold alignDown2
  omega

/-! ### Stripe bounds -/

/-- `up__stripe_args_valid` -/
def stripeArgsValid (i n srcH dstH : ℤ) : Bool :=
  if n ≤ 0 ∨ srcH ≤ 0 ∨ dstH ≤ 0 then false
  else if i < 0 ∨ i ≥ n then false
  else true

/-- `up_stripe_bounds_t`: one stripe's ranges along a single axis. -/
structure StripeBounds where
  srcStart : ℤ
  srcEnd : ℤ
  dstStart : ℤ
  dstEnd : ℤ
  deriving DecidableEq, Repr, Inhabited

/-- `up_compute_stripe_bounds`: the returned flag and the contents of `*out`.
Rejected arguments leave `*out` alone; a degenerate stripe is still written. -/
def computeStripeBounds (i n srcH dstH : ℤ) (out : StripeBounds) : Bool × StripeBounds :=
  if ¬ stripeArgsValid i n srcH dstH then (false, out)
  else
    let dstStart := if i = 0 then 0 else alignDown2 (i * dstH / n)
    let dstEnd := if i = n - 1 then dstH else alignDown2 ((i + 1) * dstH / n)
    let srcStart := if i = 0 then 0 else alignDown2 (srcH * dstStart / dstH)
    let srcEnd := if i = n - 1 then srcH else alignDown2 (srcH * dstEnd / dstH)
    (decide (dstEnd > dstStart) && decide (srcEnd > srcStart),
      ⟨srcStart, srcEnd, dstStart, dstEnd⟩)

theorem stripeArgsValid_iff {i n srcH dstH : ℤ} :
    stripeArgsValid i n srcH dstH = true ↔
      0 < srcH ∧ 0 < dstH ∧ 0 ≤ i ∧ i < n := by
  unfold stripeArgsValid
  split_ifs with h1 h2
  · simp only [false_iff]
    omega
  · simp only [false_iff]
    omega
  · simp only [true_iff]
    omega

/-- The `k`-th destination boundary of the `n`-stripe partition. -/
def dstCut (n dst k : ℤ) : ℤ := if k = n then dst else alignDown2 (k * dst / n)

/-- The `k`-th source boundary, derived from the aligned destination one. -/
def srcCut (n src dst k : ℤ) : ℤ :=
  if k = n then src else alignDown2 (src * dstCut n dst k / dst)

theorem dstCut_of_ne {n dst k : ℤ} (h : k ≠ n) :
    dstCut n dst k = alignDown2 (k * dst / n) := if_neg h

theorem srcCut_of_ne {n src dst k : ℤ} (h : k ≠ n) :
    srcCut n src dst k = alignDown2 (src * dstCut n dst k / dst) := if_neg h

@[simp] theorem dstCut_last (n dst : ℤ) : dstCut n dst n = dst := if_pos rfl

@[simp] theorem srcCut_last (n src dst : ℤ) : srcCut n src dst n = src := if_pos rfl

theorem dstCut_zero {n dst : ℤ} (hn : 0 < n) : dstCut n dst 0 = 0 := by
  rw [dstCut_of_ne (by omega)]
  simp

theorem srcCut_zero {n src dst : ℤ} (hn : 0 < n) : srcCut n src dst 0 = 0 := by
  rw [srcCut_of_ne (by omega), dstCut_zero hn]
  simp

/-- The bounds of a stripe are consecutive cuts on both axes. -/
theorem computeStripeBounds_of_valid {i n src dst : ℤ} (hsrc : 0 < src) (hdst : 0 < dst)
    (hi : 0 ≤ i) (hin : i < n) (out : StripeBounds) :
    computeStripeBounds i n src dst out =
      (decide (dstCut n dst i < dstCut n dst (i + 1)) &&
          decide (srcCut n src dst i < srcCut n src dst (i + 1)),
        ⟨srcCut n src dst i, srcCut n src dst (i + 1),
          dstCut n dst i, dstCut n dst (i + 1)⟩) := by
  have hvalid : stripeArgsValid i n src dst = true :=
    stripeArgsValid_iff.mpr ⟨hsrc, hdst, hi, hin⟩
  have hds : (if i = 0 then 0 else alignDown2 (i * dst / n)) = dstCut n dst i := by
    rw [dstCut_of_ne (by omega)]
    split_ifs with h0
    · simp [h0]
    · rfl
  have hde : (if i = n - 1 then dst else alignDown2 ((i + 1) * dst / n))
      = dstCut n dst (i + 1) := by
    unfold dstCut
    by_cases h : i = n - 1
    · rw [if_pos h, if_pos (by omega)]
    · rw [if_neg h, if_neg (by omega)]
  have hss : (if i = 0 then 0 else alignDown2 (src * dstCut n dst i / dst))
      = srcCut n src dst i := by
    rw [srcCut_of_ne (by omega)]
    split_ifs with h0
    · rw [h0, dstCut_zero (by omega)]
      simp
    · rfl
  have hse : (if i = n - 1 then src else alignDown2 (src * dstCut n dst (i + 1) / dst))
      = srcCut n src dst (i + 1) := by
    unfold srcCut
    by_cases h : i = n - 1
    · rw [if_pos h, if_pos (by omega)]
    · rw [if_neg h, if_neg (by omega)]
  unfold computeStripeBounds
  rw [if_neg (by simp [hvalid])]
  simp only [hds, hde, hss, hse, gt_iff_lt]

theorem dstCut_even {n dst k : ℤ} (hk : k ≠ n) : dstCut n dst k % 2 = 0 := by
  rw [dstCut_of_ne hk]
  exact alignDown2_even _

theorem srcCut_even {n src dst k : ℤ} (hk : k ≠ n) : srcCut n src dst k % 2 = 0 := by
  rw [srcCut_of_ne hk]
  exact alignDown2_even _

theorem dstCut_nonneg {n dst k : ℤ} (hdst : 0 < dst) (hk : 0 ≤ k) (hkn : k ≤ n) :
    0 ≤ dstCut n dst k := by
  unfold dstCut
  split_ifs with h
  · exact hdst.le
  · exact alignDown2_nonneg (Int.ediv_nonneg (by positivity) (by omega))

/-- No internal cut lies above its exact position `k * dst / n`. -/
theorem dstCut_le_ediv {n dst k : ℤ} (hn : 0 < n) :
    dstCut n dst k ≤ k * dst / n := by
  unfold dstCut
  split_ifs with h
  · rw [h, Int.mul_ediv_cancel_left _ hn.ne']
  · exact alignDown2_le _

theorem dstCut_le {n dst k : ℤ} (hn : 0 < n) (hdst : 0 < dst) (hkn : k ≤ n) :
    dstCut n dst k ≤ dst := by
  refine (dstCut_le_ediv hn).trans ?_
  calc k * dst / n ≤ n * dst / n :=
        Int.ediv_le_ediv hn (mul_le_mul_of_nonneg_right hkn hdst.le)
    _ = dst := Int.mul_ediv_cancel_left _ hn.ne'

theorem dstCut_mono {n dst j k : ℤ} (hn : 0 < n) (hdst : 0 < dst)
    (hjk : j ≤ k) (hkn : k ≤ n) : dstCut n dst j ≤ dstCut n dst k := by
  by_cases hk : k = n
  · rw [hk, dstCut_last]
    exact dstCut_le hn hdst (by omega)
  · rw [dstCut_of_ne hk, dstCut_of_ne (by omega)]
    exact alignDown2_mono
      (Int.ediv_le_ediv hn (mul_le_mul_of_nonneg_right hjk hdst.le))

theorem srcCut_nonneg {n src dst k : ℤ} (hsrc : 0 < src) (hdst : 0 < dst)
    (hk : 0 ≤ k) (hkn : k ≤ n) : 0 ≤ srcCut n src dst k := by
  unfold srcCut
  split_ifs with h
  · exact hsrc.le
  · have hd := dstCut_nonneg hdst hk hkn
    exact alignDown2_nonneg (Int.ediv_nonneg (by positivity) hdst.le)

theorem srcCut_le {n src dst k : ℤ} (hn : 0 < n) (hsrc : 0 < src) (hdst : 0 < dst)
    (hkn : k ≤ n) : srcCut n src dst k ≤ src := by
  unfold srcCut
  split_ifs with h
  · exact le_refl _
  · calc alignDown2 (src * dstCut n dst k / dst)
        ≤ src * dstCut n dst k / dst := alignDown2_le _
      _ ≤ src * dst / dst := Int.ediv_le_ediv hdst
          (mul_le_mul_of_nonneg_left (dstCut_le hn hdst hkn) hsrc.le)
      _ = src := Int.mul_ediv_cancel _ hdst.ne'

theorem srcCut_mono {n src dst j k : ℤ} (hn : 0 < n) (hsrc : 0 < src) (hdst : 0 < dst)
    (hjk : j ≤ k) (hkn : k ≤ n) : srcCut n src dst j ≤ srcCut n src dst k := by
  by_cases hk : k = n
  · rw [hk, srcCut_last]
    exact srcCut_le hn hsrc hdst (by omega)
  · rw [srcCut_of_ne hk, srcCut_of_ne (by omega)]
    exact alignDown2_mono (Int.ediv_le_ediv hdst
      (mul_le_mul_of_nonneg_left (dstCut_mono hn hdst hjk hkn) hsrc.le))

/-! ### The worker grid -/

/-- `UP_TILE_THREADS_MAX` -/
def tileThreadsMax : ℤ := 64

/-- `up_tile_geom_t` -/
structure TileGeom where
  srcW : ℤ
  srcH : ℤ
  dstW : ℤ
  dstH : ℤ
  deriving DecidableEq, Repr

/-- `up__tile_axis_limit` -/
def tileAxisLimit (extent minimum fallback budget : ℤ) : ℤ :=
  let limit := if minimum > 0 then extent.tdiv minimum else fallback
  let limit := if limit < 1 then 1 else limit
  if limit > budget then budget else limit

/-- `up__axis_partition_ok`: every stripe of the partition is non-degenerate. -/
def axisPartitionOk (n src dst : ℤ) : Bool :=
  if src ≤ 0 ∨ dst ≤ 0 then true
  else (List.range n.toNat).all fun i => (computeStripeBounds i n src dst default).1

/-- The countdown loop of `up__largest_valid_split`. -/
def largestValidSplitLoop (src dst : ℤ) : ℕ → ℤ
  | 0 => 1
  | 1 => 1
  | n + 2 =>
    if axisPartitionOk (n + 2) src dst then n + 2
    else largestValidSplitLoop src dst (n + 1)

/-- `up__largest_valid_split` -/
def largestValidSplit (start src dst : ℤ) : ℤ :=
  largestValidSplitLoop src dst start.toNat

/-- The `budget` local of `up_decide_tile_grid`. -/
def tileBudget (nThreads : ℤ) : ℤ :=
  let budget := if nThreads < 1 then 1 else nThreads
  if budget > tileThreadsMax then tileThreadsMax else budget

/-- The three `best_*` locals of the search loop. -/
structure GridBest where
  rows : ℤ
  cols : ℤ
  cells : ℤ
  deriving DecidableEq, Repr

/-- The column count the loop body pairs with `r` rows. -/
def gridCols (budget colLimit : ℤ) (geom : TileGeom) (r : ℤ) : ℤ :=
  let c := budget / r
  let c := if c > colLimit then colLimit else c
  largestValidSplit c geom.srcW geom.dstW

/-- The body of the search loop for row count `r`. -/
def gridStep (budget colLimit : ℤ) (geom : TileGeom) (best : GridBest) (r : ℤ) : GridBest :=
  if ¬ axisPartitionOk r geom.srcH geom.dstH then best
  else
    let c := gridCols budget colLimit geom r
    let cells := r * c
    if cells ≥ best.cells then ⟨r, c, cells⟩ else best

/-- The search loop after its first `k` row counts `1, …, k`. -/
def gridScan (budget colLimit : ℤ) (geom : TileGeom) : ℕ → GridBest
  | 0 => ⟨1, 1, 1⟩
  | k + 1 => gridStep budget colLimit geom (gridScan budget colLimit geom k) (k + 1)

/-- `up_decide_tile_grid`: the contents of `(*rows, *cols)`. -/
def decideTileGrid (nThreads : ℤ) (geom : TileGeom) (stripeMin colMin : ℤ) : ℤ × ℤ :=
  let budget := tileBudget nThreads
  let rowLimit := largestValidSplit (tileAxisLimit geom.dstH stripeMin budget budget)
    geom.srcH geom.dstH
  let colLimit := largestValidSplit (tileAxisLimit geom.dstW colMin 1 budget)
    geom.srcW geom.dstW
  let best := gridScan budget colLimit geom rowLimit.toNat
  (best.rows, best.cols)

end AutoUpscale
