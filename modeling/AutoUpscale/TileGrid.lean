/-
The worker grid is the best one its floors allow, and what the floors are
worth.

`decideTileGrid_optimal` says what the search of `up_decide_tile_grid`
computes: among the pairs (rows, cols) that fit the thread budget, respect the
two floors and split both axes into non-degenerate stripes (`TileFeasible`) it
returns the one with the most cells, and on a tie the one with the most rows
(`GridLe`).

The floors bound the *number* of stripes by an exact division, while the cuts
between them are aligned down to even.  `stripe_floor_iff` measures the
difference: `n` stripes all have at least `m` destination rows exactly when
`n` stripes of `evenUp m` rows fit.  So an even floor is honoured on every
geometry, and an odd one exactly when the search, run under the floors rounded
up to even, would lose nothing (`tile_floors_iff`).
-/
import AutoUpscale.PlaneUtils

namespace AutoUpscale

/-! ### Valid splits -/

theorem axisPartitionOk_iff {n src dst : ℤ} (hsrc : 0 < src) (hdst : 0 < dst) :
    axisPartitionOk n src dst = true ↔
      ∀ i, 0 ≤ i → i < n → dstCut n dst i < dstCut n dst (i + 1) ∧
        srcCut n src dst i < srcCut n src dst (i + 1) := by
  unfold axisPartitionOk
  rw [if_neg (by omega), List.all_eq_true]
  constructor
  · intro h i hi hin
    have hmem := h i.toNat (by rw [List.mem_range]; omega)
    rw [show ((i.toNat : ℕ) : ℤ) = i by omega,
      computeStripeBounds_of_valid hsrc hdst hi hin] at hmem
    simpa using hmem
  · intro h i hi
    rw [List.mem_range] at hi
    rw [computeStripeBounds_of_valid hsrc hdst (by omega) (by omega)]
    simpa using h i (by omega) (by omega)

/-- One stripe spans the whole axis. -/
theorem axisPartitionOk_one (src dst : ℤ) : axisPartitionOk 1 src dst = true := by
  by_cases h : src ≤ 0 ∨ dst ≤ 0
  · unfold axisPartitionOk
    rw [if_pos h]
  · rw [axisPartitionOk_iff (by omega) (by omega)]
    intro i hi hi1
    obtain rfl : i = 0 := by omega
    rw [dstCut_zero one_pos, srcCut_zero one_pos, zero_add, dstCut_last, srcCut_last]
    omega

/-- A valid partition has no cell that `up_compute_stripe_bounds` rejects. -/
theorem computeStripeBounds_of_axisPartitionOk {i n src dst : ℤ}
    (hsrc : 0 < src) (hdst : 0 < dst) (h : axisPartitionOk n src dst = true)
    (hi : 0 ≤ i) (hin : i < n) (out : StripeBounds) :
    computeStripeBounds i n src dst out =
      (true, ⟨srcCut n src dst i, srcCut n src dst (i + 1),
        dstCut n dst i, dstCut n dst (i + 1)⟩) := by
  obtain ⟨hd, hs⟩ := (axisPartitionOk_iff hsrc hdst).mp h i hi hin
  rw [computeStripeBounds_of_valid hsrc hdst hi hin]
  simp [hd, hs]

theorem largestValidSplitLoop_spec (src dst : ℤ) (start : ℕ) :
    1 ≤ largestValidSplitLoop src dst start ∧
      largestValidSplitLoop src dst start ≤ max 1 (start : ℤ) ∧
      axisPartitionOk (largestValidSplitLoop src dst start) src dst = true ∧
      ∀ n : ℤ, n ≤ start → axisPartitionOk n src dst = true →
        n ≤ largestValidSplitLoop src dst start := by
  induction start using largestValidSplitLoop.induct src dst with
  | case1 =>
    rw [largestValidSplitLoop]
    exact ⟨le_refl _, by simp, axisPartitionOk_one src dst,
      fun n hn _ => by push_cast at hn; omega⟩
  | case2 =>
    rw [largestValidSplitLoop]
    exact ⟨le_refl _, by simp, axisPartitionOk_one src dst,
      fun n hn _ => by push_cast at hn; omega⟩
  | case3 n hok =>
    rw [largestValidSplitLoop, if_pos hok]
    push_cast
    exact ⟨by omega, by omega, hok, fun k hk _ => hk⟩
  | case4 n hbad ih =>
    obtain ⟨h1, h2, h3, h4⟩ := ih
    rw [largestValidSplitLoop, if_neg hbad]
    push_cast at h2 h4 ⊢
    refine ⟨h1, by omega, h3, fun k hk hkok => ?_⟩
    rcases eq_or_ne k (n + 2) with rfl | hne
    · exact absurd hkok hbad
    · exact h4 k (by omega) hkok

/-- The search for a split returns the largest valid count up to `start`. -/
theorem largestValidSplit_spec (start src dst : ℤ) :
    1 ≤ largestValidSplit start src dst ∧
      largestValidSplit start src dst ≤ max 1 start ∧
      axisPartitionOk (largestValidSplit start src dst) src dst = true ∧
      ∀ n, n ≤ start → 1 ≤ n → axisPartitionOk n src dst = true →
        n ≤ largestValidSplit start src dst := by
  obtain ⟨h1, h2, h3, h4⟩ := largestValidSplitLoop_spec src dst start.toNat
  unfold largestValidSplit
  exact ⟨h1, by omega, h3, fun n hn hn1 hok => h4 n (by omega) hok⟩

theorem tileBudget_bounds (nThreads : ℤ) :
    1 ≤ tileBudget nThreads ∧ tileBudget nThreads ≤ max 1 (min nThreads 64) := by
  unfold tileBudget tileThreadsMax
  dsimp only
  split_ifs <;> omega

theorem tileAxisLimit_bounds (extent minimum fallback budget : ℤ) (hb : 1 ≤ budget) :
    1 ≤ tileAxisLimit extent minimum fallback budget ∧
      tileAxisLimit extent minimum fallback budget ≤ budget := by
  unfold tileAxisLimit
  dsimp only
  split_ifs <;> omega

/-- A count is within a positive floor's limit exactly when that many stripes
of the floor's size fit (one stripe always does). -/
theorem le_tileAxisLimit_iff {extent minimum budget n : ℤ} (fallback : ℤ)
    (hext : 0 < extent) (hmin : 0 < minimum) (hn : 1 ≤ n) (hnb : n ≤ budget) :
    n ≤ tileAxisLimit extent minimum fallback budget ↔ n = 1 ∨ n * minimum ≤ extent := by
  have hdiv : n ≤ extent / minimum ↔ n * minimum ≤ extent :=
    Int.le_ediv_iff_mul_le hmin
  unfold tileAxisLimit
  dsimp only
  rw [if_pos hmin, Int.tdiv_eq_ediv_of_nonneg hext.le]
  rw [← hdiv]
  generalize extent / minimum = q
  split_ifs <;> omega

/-! ### The search returns the best feasible grid -/

/-- What the search admits: a grid within the budget and both axis limits whose
row stripes and column tiles are all non-degenerate. -/
structure TileFeasible (nThreads : ℤ) (geom : TileGeom) (stripeMin colMin r c : ℤ) : Prop where
  rows_pos : 1 ≤ r
  cols_pos : 1 ≤ c
  cells_le : r * c ≤ tileBudget nThreads
  rows_le : r ≤ tileAxisLimit geom.dstH stripeMin (tileBudget nThreads) (tileBudget nThreads)
  cols_le : c ≤ tileAxisLimit geom.dstW colMin 1 (tileBudget nThreads)
  rows_ok : axisPartitionOk r geom.srcH geom.dstH = true
  cols_ok : axisPartitionOk c geom.srcW geom.dstW = true

/-- The search order: fewer cells, or as many cells in fewer rows. -/
def GridLe (r c r' c' : ℤ) : Prop := r * c < r' * c' ∨ (r * c = r' * c' ∧ r ≤ r')

/-- Two grids that are at least as good as each other are the same grid. -/
theorem GridLe.antisymm {r c r' c' : ℤ} (hr : 1 ≤ r)
    (h : GridLe r c r' c') (h' : GridLe r' c' r c) : r = r' ∧ c = c' := by
  have hrr : r = r' := by
    unfold GridLe at h h'
    omega
  refine ⟨hrr, ?_⟩
  have hcells : r * c = r * c' := by
    unfold GridLe at h h'
    subst hrr
    omega
  exact mul_left_cancel₀ (by omega) hcells

theorem gridCols_spec {budget colLimit : ℤ} (geom : TileGeom) {r : ℤ}
    (hr : 1 ≤ r) (hrb : r ≤ budget) (hcol : 1 ≤ colLimit) :
    1 ≤ gridCols budget colLimit geom r ∧
      r * gridCols budget colLimit geom r ≤ budget ∧
      gridCols budget colLimit geom r ≤ colLimit ∧
      axisPartitionOk (gridCols budget colLimit geom r) geom.srcW geom.dstW = true ∧
      ∀ c, 1 ≤ c → r * c ≤ budget → c ≤ colLimit →
        axisPartitionOk c geom.srcW geom.dstW = true →
        c ≤ gridCols budget colLimit geom r := by
  have hq : 1 ≤ budget / r := (Int.le_ediv_iff_mul_le (by omega)).mpr (by omega)
  have hqr : budget / r * r ≤ budget := Int.ediv_mul_le _ (by omega)
  obtain ⟨h1, h2, h3, h4⟩ := largestValidSplit_spec
    (if budget / r > colLimit then colLimit else budget / r) geom.srcW geom.dstW
  unfold gridCols
  dsimp only
  generalize largestValidSplit (if budget / r > colLimit then colLimit else budget / r)
    geom.srcW geom.dstW = s at *
  have hs : s ≤ budget / r ∧ s ≤ colLimit := by
    split_ifs at h2 <;> omega
  refine ⟨h1, ?_, hs.2, h3, fun c hc hrc hcl hok => h4 c ?_ hc hok⟩
  · calc r * s ≤ r * (budget / r) := mul_le_mul_of_nonneg_left hs.1 (by omega)
      _ = budget / r * r := mul_comm _ _
      _ ≤ budget := hqr
  · have hcq : c ≤ budget / r :=
      (Int.le_ediv_iff_mul_le (by omega)).mpr (by rw [mul_comm]; exact hrc)
    split_ifs <;> omega

/-- What the search loop holds after its first `k` row counts: a grid it may
return, at least as good as the grid of every valid row count so far. -/
structure ScanInv (budget colLimit : ℤ) (geom : TileGeom) (k : ℕ) (best : GridBest) : Prop where
  cells_eq : best.cells = best.rows * best.cols
  rows_pos : 1 ≤ best.rows
  rows_le : best.rows ≤ max 1 (k : ℤ)
  cols_pos : 1 ≤ best.cols
  cells_le : best.rows * best.cols ≤ budget
  cols_le : best.cols ≤ colLimit
  rows_ok : axisPartitionOk best.rows geom.srcH geom.dstH = true
  cols_ok : axisPartitionOk best.cols geom.srcW geom.dstW = true
  best_of : ∀ r : ℤ, 1 ≤ r → r ≤ k → axisPartitionOk r geom.srcH geom.dstH = true →
    GridLe r (gridCols budget colLimit geom r) best.rows best.cols

theorem gridScan_inv {budget colLimit : ℤ} (geom : TileGeom)
    (hb : 1 ≤ budget) (hcol : 1 ≤ colLimit) :
    ∀ k : ℕ, (k : ℤ) ≤ budget →
      ScanInv budget colLimit geom k (gridScan budget colLimit geom k) := by
  intro k
  induction k with
  | zero =>
    intro _
    refine ⟨rfl, le_refl _, by simp [gridScan], le_refl _, by simpa [gridScan] using hb,
      hcol, axisPartitionOk_one _ _, axisPartitionOk_one _ _, fun r hr hr0 _ => ?_⟩
    push_cast at hr0
    omega
  | succ k ih =>
    intro hk
    push_cast at hk
    have inv := ih (by omega)
    obtain ⟨hc1, hcb, hcl, hcok, -⟩ :=
      gridCols_spec geom (r := (k : ℤ) + 1) (by omega) hk hcol
    rw [gridScan]
    unfold gridStep
    by_cases hok : axisPartitionOk ((k : ℤ) + 1) geom.srcH geom.dstH = true
    · rw [if_neg (by simp [hok])]
      dsimp only
      by_cases hge : ((k : ℤ) + 1) * gridCols budget colLimit geom (k + 1)
          ≥ (gridScan budget colLimit geom k).cells
      · -- at least as many cells in more rows: the new best
        rw [if_pos hge]
        refine ⟨rfl, by dsimp only; omega, by push_cast; exact le_max_right _ _, hc1, hcb,
          hcl, hok, hcok, ?_⟩
        intro r hr hrk hrok
        push_cast at hrk
        rcases eq_or_ne r (k + 1) with rfl | hne
        · exact Or.inr ⟨rfl, le_refl _⟩
        · have hold := inv.best_of r hr (by omega) hrok
          rw [inv.cells_eq] at hge
          unfold GridLe at hold ⊢
          dsimp only
          omega
      · -- strictly fewer cells than the best so far
        rw [if_neg hge]
        refine ⟨inv.cells_eq, inv.rows_pos, by have := inv.rows_le; push_cast; omega,
          inv.cols_pos, inv.cells_le, inv.cols_le, inv.rows_ok, inv.cols_ok, ?_⟩
        intro r hr hrk hrok
        push_cast at hrk
        rcases eq_or_ne r (k + 1) with rfl | hne
        · rw [inv.cells_eq] at hge
          exact Or.inl (by omega)
        · exact inv.best_of r hr (by omega) hrok
    · -- a degenerate row count is skipped
      rw [if_pos hok]
      refine ⟨inv.cells_eq, inv.rows_pos, by have := inv.rows_le; push_cast; omega,
        inv.cols_pos, inv.cells_le, inv.cols_le, inv.rows_ok, inv.cols_ok, ?_⟩
      intro r hr hrk hrok
      push_cast at hrk
      rcases eq_or_ne r (k + 1) with rfl | hne
      · exact absurd hrok hok
      · exact inv.best_of r hr (by omega) hrok

/-- The returned grid is feasible. -/
theorem decideTileGrid_feasible (nThreads : ℤ) (geom : TileGeom) (stripeMin colMin : ℤ) :
    TileFeasible nThreads geom stripeMin colMin
      (decideTileGrid nThreads geom stripeMin colMin).1
      (decideTileGrid nThreads geom stripeMin colMin).2 := by
  obtain ⟨hb, -⟩ := tileBudget_bounds nThreads
  obtain ⟨hl1, hlb⟩ := tileAxisLimit_bounds geom.dstH stripeMin (tileBudget nThreads) _ hb
  obtain ⟨hc1, -⟩ := tileAxisLimit_bounds geom.dstW colMin 1 _ hb
  obtain ⟨hr1, hrl, -, -⟩ := largestValidSplit_spec
    (tileAxisLimit geom.dstH stripeMin (tileBudget nThreads) (tileBudget nThreads))
    geom.srcH geom.dstH
  obtain ⟨hk1, hkl, -, -⟩ := largestValidSplit_spec
    (tileAxisLimit geom.dstW colMin 1 (tileBudget nThreads)) geom.srcW geom.dstW
  have inv := gridScan_inv geom hb hk1
    (largestValidSplit (tileAxisLimit geom.dstH stripeMin (tileBudget nThreads)
      (tileBudget nThreads)) geom.srcH geom.dstH).toNat (by omega)
  have hrows := inv.rows_le
  have hcols := inv.cols_le
  exact ⟨inv.rows_pos, inv.cols_pos, inv.cells_le, by dsimp only [decideTileGrid]; omega,
    by dsimp only [decideTileGrid]; omega, inv.rows_ok, inv.cols_ok⟩

/-- No feasible grid beats the returned one. -/
theorem decideTileGrid_optimal {nThreads : ℤ} {geom : TileGeom} {stripeMin colMin r c : ℤ}
    (h : TileFeasible nThreads geom stripeMin colMin r c) :
    GridLe r c (decideTileGrid nThreads geom stripeMin colMin).1
      (decideTileGrid nThreads geom stripeMin colMin).2 := by
  obtain ⟨hb, -⟩ := tileBudget_bounds nThreads
  obtain ⟨hl1, hlb⟩ := tileAxisLimit_bounds geom.dstH stripeMin (tileBudget nThreads) _ hb
  obtain ⟨hr1, hrl, -, hrmax⟩ := largestValidSplit_spec
    (tileAxisLimit geom.dstH stripeMin (tileBudget nThreads) (tileBudget nThreads))
    geom.srcH geom.dstH
  obtain ⟨hk1, -, -, hkmax⟩ := largestValidSplit_spec
    (tileAxisLimit geom.dstW colMin 1 (tileBudget nThreads)) geom.srcW geom.dstW
  have hrow := hrmax r h.rows_le h.rows_pos h.rows_ok
  have hcol := hkmax c h.cols_le h.cols_pos h.cols_ok
  have inv := gridScan_inv geom hb hk1
    (largestValidSplit (tileAxisLimit geom.dstH stripeMin (tileBudget nThreads)
      (tileBudget nThreads)) geom.srcH geom.dstH).toNat (by omega)
  obtain ⟨-, -, -, -, hcmax⟩ := gridCols_spec geom h.rows_pos
    (by have := h.rows_le; omega : r ≤ tileBudget nThreads) hk1
  have hle := hcmax c h.cols_pos h.cells_le hcol h.cols_ok
  have hcells := mul_le_mul_of_nonneg_left hle (by have := h.rows_pos; omega : (0 : ℤ) ≤ r)
  have hbest := inv.best_of r h.rows_pos (by omega) h.rows_ok
  unfold GridLe at hbest ⊢
  dsimp only [decideTileGrid]
  omega

/-! ### What the floors are worth -/

/-- A floor rounded up to even. -/
def evenUp (m : ℤ) : ℤ := m + m % 2

theorem evenUp_even (m : ℤ) : evenUp m % 2 = 0 := by
  unfold evenUp
  omega

theorem le_evenUp (m : ℤ) : m ≤ evenUp m := by
  unfold evenUp
  omega

theorem evenUp_pos {m : ℤ} (hm : 0 < m) : 0 < evenUp m :=
  hm.trans_le (le_evenUp m)

/-- An even number above `m` is above `evenUp m`. -/
theorem evenUp_le_of_even {m x : ℤ} (hx : x % 2 = 0) (h : m ≤ x) : evenUp m ≤ x := by
  unfold evenUp
  omega

/-- The destination extent of stripe `i`. -/
def stripeDstExtent (i n srcH dstH : ℤ) : ℤ :=
  (computeStripeBounds i n srcH dstH default).2.dstEnd
    - (computeStripeBounds i n srcH dstH default).2.dstStart

theorem stripeDstExtent_eq {i n src dst : ℤ} (hsrc : 0 < src) (hdst : 0 < dst)
    (hi : 0 ≤ i) (hin : i < n) :
    stripeDstExtent i n src dst = dstCut n dst (i + 1) - dstCut n dst i := by
  unfold stripeDstExtent
  rw [computeStripeBounds_of_valid hsrc hdst hi hin]

/-- When `n` stripes of an even extent `m` fit, consecutive cuts lie at least
`m` apart. -/
theorem dstCut_step {n dst m k : ℤ} (hn : 0 < n) (hm : m % 2 = 0)
    (hfit : n * m ≤ dst) (hk : k + 1 ≤ n) :
    dstCut n dst k + m ≤ dstCut n dst (k + 1) := by
  have hquot : (k * dst + n * m) / n = k * dst / n + m := by
    rw [mul_comm n m, Int.add_mul_ediv_right _ _ hn.ne']
  have hstep : k * dst / n + m ≤ (k + 1) * dst / n := by
    rw [← hquot]
    exact Int.ediv_le_ediv hn (by rw [add_mul, one_mul]; omega)
  rw [dstCut_of_ne (by omega : k ≠ n)]
  by_cases hlast : k + 1 = n
  · rw [hlast, dstCut_last]
    rw [hlast, Int.mul_ediv_cancel_left _ hn.ne'] at hstep
    have := alignDown2_le (k * dst / n)
    omega
  · rw [dstCut_of_ne hlast, ← alignDown2_add_even _ hm]
    exact alignDown2_mono hstep

/-- Several stripes all keep `m` destination rows exactly when that many
stripes of `evenUp m` rows fit: the first stripe ends at an aligned cut. -/
theorem stripe_floor_iff {n src dst m : ℤ} (hsrc : 0 < src) (hdst : 0 < dst) (hn : 1 < n) :
    (∀ i, 0 ≤ i → i < n → m ≤ stripeDstExtent i n src dst) ↔ n * evenUp m ≤ dst := by
  constructor
  · intro h
    have hfirst := h 0 (le_refl _) (by omega)
    rw [stripeDstExtent_eq hsrc hdst (le_refl _) (by omega), zero_add,
      dstCut_zero (by omega), sub_zero] at hfirst
    have heven := evenUp_le_of_even (dstCut_even (by omega : (1 : ℤ) ≠ n)) hfirst
    have hexact : evenUp m ≤ 1 * dst / n := heven.trans (dstCut_le_ediv (by omega))
    rw [one_mul, Int.le_ediv_iff_mul_le (by omega)] at hexact
    rw [mul_comm]
    exact hexact
  · intro hfit i hi hin
    rw [stripeDstExtent_eq hsrc hdst hi hin]
    have hstep := dstCut_step (by omega) (evenUp_even m) hfit (by omega : i + 1 ≤ n)
    have hle := le_evenUp m
    omega

/-- Every stripe and every tile of the returned grid keeps its floor. -/
def FloorsHonoured (nThreads : ℤ) (geom : TileGeom) (stripeMin colMin : ℤ) : Prop :=
  let grid := decideTileGrid nThreads geom stripeMin colMin
  (1 < grid.1 → ∀ i, 0 ≤ i → i < grid.1 →
      stripeMin ≤ stripeDstExtent i grid.1 geom.srcH geom.dstH) ∧
    (1 < grid.2 → ∀ j, 0 ≤ j → j < grid.2 →
      colMin ≤ stripeDstExtent j grid.2 geom.srcW geom.dstW)

/-- Rounding the two floors up to even costs the search nothing: for every grid
the floors admit, the even floors admit one that is at least as good. -/
def EvenFloorsSuffice (nThreads : ℤ) (geom : TileGeom) (stripeMin colMin : ℤ) : Prop :=
  ∀ r c, TileFeasible nThreads geom stripeMin colMin r c →
    ∃ r' c', TileFeasible nThreads geom (evenUp stripeMin) (evenUp colMin) r' c' ∧
      GridLe r c r' c'

section Floors

variable {nThreads : ℤ} {geom : TileGeom} {stripeMin colMin : ℤ}

/-- Larger floors admit fewer grids. -/
theorem TileFeasible.of_evenUp (hdh : 0 < geom.dstH) (hdw : 0 < geom.dstW)
    (hsm : 0 < stripeMin) (hcm : 0 < colMin) {r c : ℤ}
    (h : TileFeasible nThreads geom (evenUp stripeMin) (evenUp colMin) r c) :
    TileFeasible nThreads geom stripeMin colMin r c := by
  have hb := (tileBudget_bounds nThreads).1
  have hrb := h.rows_le.trans (tileAxisLimit_bounds _ _ _ _ hb).2
  have hcb := h.cols_le.trans (tileAxisLimit_bounds _ _ _ _ hb).2
  refine ⟨h.rows_pos, h.cols_pos, h.cells_le, ?_, ?_, h.rows_ok, h.cols_ok⟩
  · rw [le_tileAxisLimit_iff _ hdh hsm h.rows_pos hrb]
    refine ((le_tileAxisLimit_iff _ hdh (evenUp_pos hsm) h.rows_pos hrb).mp h.rows_le).imp_right
      fun hfit => (mul_le_mul_of_nonneg_left (le_evenUp stripeMin) ?_).trans hfit
    exact zero_le_one.trans h.rows_pos
  · rw [le_tileAxisLimit_iff _ hdw hcm h.cols_pos hcb]
    refine ((le_tileAxisLimit_iff _ hdw (evenUp_pos hcm) h.cols_pos hcb).mp h.cols_le).imp_right
      fun hfit => (mul_le_mul_of_nonneg_left (le_evenUp colMin) ?_).trans hfit
    exact zero_le_one.trans h.cols_pos

/-- A returned grid keeps its floors exactly when the even floors admit it. -/
theorem floorsHonoured_iff_feasible (hsh : 0 < geom.srcH) (hsw : 0 < geom.srcW)
    (hdh : 0 < geom.dstH) (hdw : 0 < geom.dstW)
    (hsm : 0 < stripeMin) (hcm : 0 < colMin) :
    FloorsHonoured nThreads geom stripeMin colMin ↔
      TileFeasible nThreads geom (evenUp stripeMin) (evenUp colMin)
        (decideTileGrid nThreads geom stripeMin colMin).1
        (decideTileGrid nThreads geom stripeMin colMin).2 := by
  have hf := decideTileGrid_feasible nThreads geom stripeMin colMin
  have hb := (tileBudget_bounds nThreads).1
  have hrb := hf.rows_le.trans (tileAxisLimit_bounds _ _ _ _ hb).2
  have hcb := hf.cols_le.trans (tileAxisLimit_bounds _ _ _ _ hb).2
  have hrow := le_tileAxisLimit_iff (tileBudget nThreads) hdh (evenUp_pos hsm)
    hf.rows_pos hrb
  have hcol := le_tileAxisLimit_iff 1 hdw (evenUp_pos hcm) hf.cols_pos hcb
  unfold FloorsHonoured
  dsimp only
  generalize decideTileGrid nThreads geom stripeMin colMin = grid at *
  constructor
  · rintro ⟨hrows, hcols⟩
    refine ⟨hf.rows_pos, hf.cols_pos, hf.cells_le, hrow.mpr ?_, hcol.mpr ?_,
      hf.rows_ok, hf.cols_ok⟩
    · rcases hf.rows_pos.eq_or_lt' with h1 | h1
      · exact Or.inl h1
      · exact Or.inr ((stripe_floor_iff hsh hdh h1).mp (hrows h1))
    · rcases hf.cols_pos.eq_or_lt' with h1 | h1
      · exact Or.inl h1
      · exact Or.inr ((stripe_floor_iff hsw hdw h1).mp (hcols h1))
  · intro h
    refine ⟨fun h1 => (stripe_floor_iff hsh hdh h1).mpr ?_,
      fun h1 => (stripe_floor_iff hsw hdw h1).mpr ?_⟩
    · exact (hrow.mp h.rows_le).resolve_left (by omega)
    · exact (hcol.mp h.cols_le).resolve_left (by omega)

/-- **When the floors are honoured.**  Every stripe and tile of the returned
grid keeps its minimum exactly when rounding the two minima up to even costs
the search nothing. -/
theorem tile_floors_iff (hsh : 0 < geom.srcH) (hsw : 0 < geom.srcW)
    (hdh : 0 < geom.dstH) (hdw : 0 < geom.dstW)
    (hsm : 0 < stripeMin) (hcm : 0 < colMin) :
    FloorsHonoured nThreads geom stripeMin colMin ↔
      EvenFloorsSuffice nThreads geom stripeMin colMin := by
  rw [floorsHonoured_iff_feasible hsh hsw hdh hdw hsm hcm]
  constructor
  · intro h r c hrc
    exact ⟨_, _, h, decideTileGrid_optimal hrc⟩
  · intro h
    have hf := decideTileGrid_feasible nThreads geom stripeMin colMin
    obtain ⟨r', c', hfeas, hle⟩ := h _ _ hf
    have hback := decideTileGrid_optimal (hfeas.of_evenUp hdh hdw hsm hcm)
    obtain ⟨hr, hc⟩ := GridLe.antisymm hf.rows_pos hle hback
    rw [hr, hc]
    exact hfeas

/-- Even floors, as the defaults 16 and 64 are, are always honoured. -/
theorem floorsHonoured_of_even (hsh : 0 < geom.srcH) (hsw : 0 < geom.srcW)
    (hdh : 0 < geom.dstH) (hdw : 0 < geom.dstW)
    (hsm : 0 < stripeMin) (hcm : 0 < colMin)
    (hse : stripeMin % 2 = 0) (hce : colMin % 2 = 0) :
    FloorsHonoured nThreads geom stripeMin colMin := by
  rw [floorsHonoured_iff_feasible hsh hsw hdh hdw hsm hcm]
  have hs : evenUp stripeMin = stripeMin := by unfold evenUp; omega
  have hc : evenUp colMin = colMin := by unfold evenUp; omega
  rw [hs, hc]
  exact decideTileGrid_feasible nThreads geom stripeMin colMin

end Floors

/-- 640×360 scaled to 1280×720 by 16 workers with at least 45 rows each: the
grid has 16 row stripes, and the first ends at the aligned cut 44. -/
theorem floors_broken_at_odd_minimum :
    ¬ FloorsHonoured 16 ⟨640, 360, 1280, 720⟩ 45 64 := by
  intro h
  have hgrid : decideTileGrid 16 ⟨640, 360, 1280, 720⟩ 45 64 = (16, 1) := by decide +kernel
  have hfirst := h.1 (by rw [hgrid]; decide) 0 (le_refl _) (by rw [hgrid]; decide)
  rw [hgrid] at hfirst
  exact absurd hfirst (by decide)

theorem tile_floors_iff_at_odd_minimum :
    FloorsHonoured 16 ⟨640, 360, 1280, 720⟩ 45 64 ↔
      EvenFloorsSuffice 16 ⟨640, 360, 1280, 720⟩ 45 64 :=
  tile_floors_iff (by decide) (by decide) (by decide) (by decide) (by decide) (by decide)

end AutoUpscale
