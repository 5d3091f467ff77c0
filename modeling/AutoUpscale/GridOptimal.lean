/-
Which stripe counts are valid, and why the worker grid is the best one.

The cuts of an axis are superadditive up to the exact last one
(`dstCut_add_first_le`, `srcCut_add_first_le`), so no stripe is shorter than the
first:

* **`stripe_validity`** — all stripes are non-degenerate exactly when the first
  one is, fewer stripes are valid whenever more are, and so the searches of
  `up_decide_tile_grid` pass over no invalid count below their limits;
* **`tile_grid_optimal`** — the grid has as many cells as any feasible grid,
  and as many rows as any feasible grid with that many cells.
-/
import AutoUpscale.StripePartition
import AutoUpscale.TileGrid

namespace AutoUpscale

open NestedFloor

/-! ### Valid counts -/

/-- `up_compute_stripe_bounds` reports stripe `i` of `n` as non-degenerate. -/
def StripeValid (i n src dst : ℤ) : Prop :=
  ∀ out, (computeStripeBounds i n src dst out).1 = true

/-- All `n` stripes are non-degenerate. -/
def SplitValid (n src dst : ℤ) : Prop := ∀ i, 0 ≤ i → i < n → StripeValid i n src dst

section Axis

variable {n src dst : ℤ}

theorem stripeValid_iff (hsrc : 0 < src) (hdst : 0 < dst) {i : ℤ} (hi : 0 ≤ i) (hin : i < n) :
    StripeValid i n src dst ↔
      dstCut n dst i < dstCut n dst (i + 1) ∧ srcCut n src dst i < srcCut n src dst (i + 1) := by
  unfold StripeValid
  simp only [computeStripeBounds_of_valid hsrc hdst hi hin, Bool.and_eq_true, decide_eq_true_eq]
  exact forall_const StripeBounds

theorem axisPartitionOk_iff_splitValid (hsrc : 0 < src) (hdst : 0 < dst) :
    axisPartitionOk n src dst = true ↔ SplitValid n src dst := by
  rw [axisPartitionOk_iff hsrc hdst]
  constructor
  · intro h i hi hin
    exact (stripeValid_iff hsrc hdst hi hin).mpr (h i hi hin)
  · intro h i hi hin
    exact (stripeValid_iff hsrc hdst hi hin).mp (h i hi hin)

/-- One stripe is the whole axis. -/
theorem splitValid_one (hsrc : 0 < src) (hdst : 0 < dst) : SplitValid 1 src dst :=
  (axisPartitionOk_iff_splitValid hsrc hdst).mp (axisPartitionOk_one src dst)

/-! ### The first stripe decides -/

theorem alignedCut_superadditive (p : ℤ) {q : ℤ} (hq : 0 < q) :
    Superadditive (alignedCut p q) :=
  alignDown2_superadditive.comp (fun _ _ h => alignDown2_mono h) (scaled_superadditive p hq)

theorem alignedCut_mono {p q : ℤ} (hp : 0 ≤ p) (hq : 0 < q) : Monotone (alignedCut p q) := by
  intro j k hjk
  exact alignDown2_mono (scaled_mono hp hq hjk)

/-- The last boundary is exact, every other one is aligned down. -/
theorem alignedCut_le_dstCut (hn : 0 < n) (k : ℤ) : alignedCut dst n k ≤ dstCut n dst k := by
  rcases eq_or_ne k n with rfl | hk
  · rw [dstCut_last]
    calc alignedCut dst k k ≤ k * dst / k := alignDown2_le _
      _ = dst := Int.mul_ediv_cancel_left _ hn.ne'
  · exact (dstCut_eq_alignedCut hk).ge

theorem alignedCut_le_srcCut (hdst : 0 < dst) (k : ℤ) :
    alignedCut src dst (dstCut n dst k) ≤ srcCut n src dst k := by
  rcases eq_or_ne k n with rfl | hk
  · rw [dstCut_last, srcCut_last]
    calc alignedCut src dst dst ≤ dst * src / dst := alignDown2_le _
      _ = src := Int.mul_ediv_cancel_left _ hdst.ne'
  · exact (srcCut_eq_alignedCut hk).ge

/-- The two boundaries of a first stripe that is not the only one. -/
structure FirstStripe (n src dst : ℤ) : Prop where
  dst_pos : 0 < alignedCut dst n 1
  src_pos : 0 < alignedCut src dst (alignedCut dst n 1)

theorem stripeValid_zero_iff (hsrc : 0 < src) (hdst : 0 < dst) (hn : 1 < n) :
    StripeValid 0 n src dst ↔ FirstStripe n src dst := by
  have hne : (0 : ℤ) + 1 ≠ n := by omega
  rw [stripeValid_iff hsrc hdst le_rfl (by omega), dstCut_zero (by omega),
    srcCut_zero (by omega), srcCut_eq_alignedCut hne, dstCut_eq_alignedCut hne, zero_add]
  constructor
  · rintro ⟨hd, hs⟩
    exact ⟨hd, hs⟩
  · rintro ⟨hd, hs⟩
    exact ⟨hd, hs⟩

/-- A destination stripe is at least as long as the first one. -/
theorem dstCut_add_first_le (hn : 0 < n) {k : ℤ} (hk : k < n) :
    dstCut n dst k + alignedCut dst n 1 ≤ dstCut n dst (k + 1) := by
  rw [dstCut_eq_alignedCut hk.ne]
  exact (alignedCut_superadditive dst hn k 1).trans (alignedCut_le_dstCut hn (k + 1))

/-- A source stripe is at least as long as the first one. -/
theorem srcCut_add_first_le (hn : 0 < n) (hsrc : 0 < src) (hdst : 0 < dst) {k : ℤ} (hk : k < n) :
    srcCut n src dst k + alignedCut src dst (alignedCut dst n 1) ≤ srcCut n src dst (k + 1) := by
  rw [srcCut_eq_alignedCut hk.ne]
  calc alignedCut src dst (dstCut n dst k) + alignedCut src dst (alignedCut dst n 1)
      ≤ alignedCut src dst (dstCut n dst k + alignedCut dst n 1) :=
        alignedCut_superadditive src hdst _ _
    _ ≤ alignedCut src dst (dstCut n dst (k + 1)) :=
        alignedCut_mono hsrc.le hdst (dstCut_add_first_le hn hk)
    _ ≤ srcCut n src dst (k + 1) := alignedCut_le_srcCut hdst (k + 1)

theorem splitValid_iff_first (hsrc : 0 < src) (hdst : 0 < dst) (hn : 1 ≤ n) :
    SplitValid n src dst ↔ StripeValid 0 n src dst := by
  constructor
  · intro h
    exact h 0 le_rfl (by omega)
  · intro h
    rcases hn.eq_or_lt with rfl | hn1
    · exact splitValid_one hsrc hdst
    · have hfirst := (stripeValid_zero_iff hsrc hdst hn1).mp h
      intro i hi hin
      have hd : dstCut n dst i + alignedCut dst n 1 ≤ dstCut n dst (i + 1) :=
        dstCut_add_first_le (by omega) hin
      have hs := srcCut_add_first_le (by omega) hsrc hdst hin
      have hdpos := hfirst.dst_pos
      have hspos := hfirst.src_pos
      exact (stripeValid_iff hsrc hdst hi hin).mpr ⟨by omega, by omega⟩

/-- Fewer stripes are longer, the first one too. -/
theorem splitValid_of_le (hsrc : 0 < src) (hdst : 0 < dst) {m : ℤ} (hm : 1 ≤ m) (hmn : m ≤ n)
    (h : SplitValid n src dst) : SplitValid m src dst := by
  rcases hm.eq_or_lt with rfl | hm1
  · exact splitValid_one hsrc hdst
  · have hfirst := (stripeValid_zero_iff hsrc hdst (by omega)).mp
      ((splitValid_iff_first hsrc hdst (by omega)).mp h)
    have hlonger : alignedCut dst n 1 ≤ alignedCut dst m 1 :=
      alignDown2_mono (scaled_anti (by omega) (by omega) hmn)
    rw [splitValid_iff_first hsrc hdst hm, stripeValid_zero_iff hsrc hdst hm1]
    constructor
    · exact hfirst.dst_pos.trans_le hlonger
    · exact hfirst.src_pos.trans_le (alignedCut_mono hsrc.le hdst hlonger)

/-- The search returns the largest valid count, all smaller ones being valid. -/
theorem largestValidSplit_isGreatest (hsrc : 0 < src) (hdst : 0 < dst) (start : ℤ) :
    IsGreatest {n | 1 ≤ n ∧ n ≤ max 1 start ∧ SplitValid n src dst}
      (largestValidSplit start src dst) := by
  obtain ⟨hpos, hle, hok, hmax⟩ := largestValidSplit_spec start src dst
  constructor
  · exact ⟨hpos, hle, (axisPartitionOk_iff_splitValid hsrc hdst).mp hok⟩
  · rintro n ⟨hn1, hn, hvalid⟩
    rcases hn1.eq_or_lt with rfl | hn2
    · exact hpos
    · exact hmax n (by omega) hn1 ((axisPartitionOk_iff_splitValid hsrc hdst).mpr hvalid)

theorem splitValid_of_le_largest (hsrc : 0 < src) (hdst : 0 < dst) {start m : ℤ} (hm : 1 ≤ m)
    (hle : m ≤ largestValidSplit start src dst) : SplitValid m src dst :=
  splitValid_of_le hsrc hdst hm hle (largestValidSplit_isGreatest hsrc hdst start).1.2.2

end Axis

/-! ### The worker grid -/

/-- The row limit of the search loop. -/
def gridRowLimit (nThreads : ℤ) (geom : TileGeom) (stripeMin : ℤ) : ℤ :=
  largestValidSplit
    (tileAxisLimit geom.dstH stripeMin (tileBudget nThreads) (tileBudget nThreads))
    geom.srcH geom.dstH

/-- The column limit of the search loop. -/
def gridColLimit (nThreads : ℤ) (geom : TileGeom) (colMin : ℤ) : ℤ :=
  largestValidSplit (tileAxisLimit geom.dstW colMin 1 (tileBudget nThreads))
    geom.srcW geom.dstW

/-- **The first stripe decides.**  A stripe count is valid exactly when its
first stripe is; smaller counts than a valid one are valid; the bounded search
for a count returns the largest valid one, and the row loop runs over valid
counts only. -/
theorem stripe_validity {src dst : ℤ} (hsrc : 0 < src) (hdst : 0 < dst) :
    (∀ n, 1 ≤ n → (SplitValid n src dst ↔ StripeValid 0 n src dst)) ∧
    (∀ n m, 1 ≤ m → m < n → SplitValid n src dst → SplitValid m src dst) ∧
    (∀ start, IsGreatest {n | 1 ≤ n ∧ n ≤ max 1 start ∧ SplitValid n src dst}
        (largestValidSplit start src dst) ∧
      ∀ m, 1 ≤ m → m ≤ largestValidSplit start src dst → SplitValid m src dst) ∧
    ∀ nThreads srcW dstW stripeMin colMin,
      let geom : TileGeom := ⟨srcW, src, dstW, dst⟩
      let rowLimit := gridRowLimit nThreads geom stripeMin
      let best := gridScan (tileBudget nThreads) (gridColLimit nThreads geom colMin) geom
        rowLimit.toNat
      decideTileGrid nThreads geom stripeMin colMin = (best.rows, best.cols) ∧
        ∀ r, 1 ≤ r → r ≤ rowLimit → axisPartitionOk r geom.srcH geom.dstH = true := by
  refine ⟨?_, ?_, ?_, ?_⟩
  · intro n hn
    exact splitValid_iff_first hsrc hdst hn
  · intro n m hm hmn h
    exact splitValid_of_le hsrc hdst hm hmn.le h
  · intro start
    constructor
    · exact largestValidSplit_isGreatest hsrc hdst start
    · intro m hm hle
      exact splitValid_of_le_largest hsrc hdst hm hle
  · intro nThreads srcW dstW stripeMin colMin
    constructor
    · rfl
    · intro r hr hle
      exact (axisPartitionOk_iff_splitValid hsrc hdst).mpr
        (splitValid_of_le_largest hsrc hdst hr hle)

/-- 360 rows scaled to 720: the 16 stripes of 16 workers are valid, so are 5. -/
theorem stripe_validity_at_720p : SplitValid 16 360 720 ∧ SplitValid 5 360 720 := by
  have h16 : SplitValid 16 360 720 :=
    (axisPartitionOk_iff_splitValid (by decide) (by decide)).mp (by decide)
  exact ⟨h16, (stripe_validity (by decide) (by decide)).2.1 16 5 (by decide) (by decide) h16⟩

/-- The thread budget: `nThreads` clamped to what the grid may use. -/
theorem tileBudget_eq (nThreads : ℤ) : tileBudget nThreads = max 1 (min nThreads 64) := by
  unfold tileBudget tileThreadsMax
  dsimp only
  split_ifs <;> omega

/-- A grid that fits the budget and the two floors and splits both axes into
non-degenerate stripes. -/
structure GridFeasible (nThreads : ℤ) (geom : TileGeom) (stripeMin colMin r c : ℤ) : Prop where
  rows_pos : 1 ≤ r
  cols_pos : 1 ≤ c
  cells_le : r * c ≤ max 1 (min nThreads 64)
  rows_le : if stripeMin ≤ 0 then r ≤ max 1 (min nThreads 64)
    else r ≤ max 1 (geom.dstH / stripeMin)
  cols_le : if colMin ≤ 0 then c = 1 else c ≤ max 1 (geom.dstW / colMin)
  rows_ok : SplitValid r geom.srcH geom.dstH
  cols_ok : SplitValid c geom.srcW geom.dstW

section Grid

variable {nThreads : ℤ} {geom : TileGeom} {stripeMin colMin r c : ℤ}

/-- The limit of an axis, for a count within the budget. -/
theorem le_tileAxisLimit_iff_of_le {extent minimum fallback budget n : ℤ} (hext : 0 < extent)
    (hfall : 1 ≤ fallback) (hfb : fallback ≤ budget) (hnb : n ≤ budget) :
    n ≤ tileAxisLimit extent minimum fallback budget ↔
      if minimum ≤ 0 then n ≤ fallback else n ≤ max 1 (extent / minimum) := by
  unfold tileAxisLimit
  dsimp only
  rw [Int.tdiv_eq_ediv_of_nonneg hext.le]
  generalize extent / minimum = q
  split_ifs <;> omega

theorem gridFeasible_iff (hh : 0 < geom.srcH ∧ 0 < geom.dstH)
    (hw : 0 < geom.srcW ∧ 0 < geom.dstW) :
    GridFeasible nThreads geom stripeMin colMin r c ↔
      TileFeasible nThreads geom stripeMin colMin r c := by
  have hb := tileBudget_eq nThreads
  have hrows : ∀ hc : 1 ≤ c, ∀ hr : 1 ≤ r, r * c ≤ tileBudget nThreads →
      r ≤ tileBudget nThreads ∧ c ≤ tileBudget nThreads := by
    intro hc hr hcells
    constructor
    · exact (le_mul_of_one_le_right (by omega) hc).trans hcells
    · exact (le_mul_of_one_le_left (by omega) hr).trans hcells
  constructor
  · rintro ⟨hr, hc, hcells, hrl, hcl, hrok, hcok⟩
    rw [← hb] at hcells hrl
    obtain ⟨hrb, hcb⟩ := hrows hc hr hcells
    refine ⟨hr, hc, hcells, ?_, ?_, (axisPartitionOk_iff_splitValid hh.1 hh.2).mpr hrok,
      (axisPartitionOk_iff_splitValid hw.1 hw.2).mpr hcok⟩
    · exact (le_tileAxisLimit_iff_of_le hh.2 (by omega) le_rfl hrb).mpr hrl
    · rw [le_tileAxisLimit_iff_of_le hw.2 le_rfl (by omega) hcb]
      split_ifs at hcl ⊢
      · exact hcl.le
      · exact hcl
  · rintro ⟨hr, hc, hcells, hrl, hcl, hrok, hcok⟩
    obtain ⟨hrb, hcb⟩ := hrows hc hr hcells
    rw [le_tileAxisLimit_iff_of_le hh.2 (by omega) le_rfl hrb] at hrl
    rw [le_tileAxisLimit_iff_of_le hw.2 le_rfl (by omega) hcb] at hcl
    refine ⟨hr, hc, hb ▸ hcells, hb ▸ hrl, ?_, (axisPartitionOk_iff_splitValid hh.1 hh.2).mp hrok,
      (axisPartitionOk_iff_splitValid hw.1 hw.2).mp hcok⟩
    split_ifs at hcl ⊢
    · omega
    · exact hcl

/-- A larger budget admits every grid a smaller one does. -/
theorem GridFeasible.mono {nThreads' : ℤ} (h : GridFeasible nThreads geom stripeMin colMin r c)
    (hle : nThreads ≤ nThreads') : GridFeasible nThreads' geom stripeMin colMin r c := by
  have hbudget : max 1 (min nThreads 64) ≤ max 1 (min nThreads' 64) := by omega
  have hrows := h.rows_le
  refine ⟨h.rows_pos, h.cols_pos, h.cells_le.trans hbudget, ?_, h.cols_le, h.rows_ok, h.cols_ok⟩
  split_ifs at hrows ⊢
  · exact hrows.trans hbudget
  · exact hrows

/-- **The worker grid is optimal.**  It is feasible; no feasible grid has more
cells, and none with as many cells has more rows.  So columns stay whole when
the rows alone use the budget, and more threads never mean fewer cells. -/
theorem tile_grid_optimal (hh : 0 < geom.srcH ∧ 0 < geom.dstH)
    (hw : 0 < geom.srcW ∧ 0 < geom.dstW) (nThreads stripeMin colMin : ℤ) :
    let grid := decideTileGrid nThreads geom stripeMin colMin
    GridFeasible nThreads geom stripeMin colMin grid.1 grid.2 ∧
    (∀ r c, GridFeasible nThreads geom stripeMin colMin r c →
      r * c ≤ grid.1 * grid.2 ∧ (r * c = grid.1 * grid.2 → r ≤ grid.1)) ∧
    (GridFeasible nThreads geom stripeMin colMin (max 1 (min nThreads 64)) 1 → grid.2 = 1) ∧
    ∀ nThreads', nThreads ≤ nThreads' →
      grid.1 * grid.2 ≤ (decideTileGrid nThreads' geom stripeMin colMin).1
        * (decideTileGrid nThreads' geom stripeMin colMin).2 := by
  intro grid
  have hfeasible : ∀ t, GridFeasible t geom stripeMin colMin
      (decideTileGrid t geom stripeMin colMin).1 (decideTileGrid t geom stripeMin colMin).2 := by
    intro t
    exact (gridFeasible_iff hh hw).mpr (decideTileGrid_feasible t geom stripeMin colMin)
  have hbest : ∀ t r c, GridFeasible t geom stripeMin colMin r c →
      GridLe r c (decideTileGrid t geom stripeMin colMin).1
        (decideTileGrid t geom stripeMin colMin).2 := by
    intro t r c h
    exact decideTileGrid_optimal ((gridFeasible_iff hh hw).mp h)
  refine ⟨hfeasible nThreads, ?_, ?_, ?_⟩
  · intro r c h
    have hle : GridLe r c grid.1 grid.2 := hbest nThreads r c h
    unfold GridLe at hle
    constructor
    · omega
    · intro heq
      omega
  · intro hwhole
    -- a full single column is the best grid there is, so it is the one returned
    have hle : GridLe (max 1 (min nThreads 64)) 1 grid.1 grid.2 := hbest nThreads _ _ hwhole
    have hcells : grid.1 * grid.2 ≤ max 1 (min nThreads 64) := (hfeasible nThreads).cells_le
    have hrows : 1 ≤ grid.1 := (hfeasible nThreads).rows_pos
    have hcols : 1 ≤ grid.2 := (hfeasible nThreads).cols_pos
    have hrc : grid.1 ≤ grid.1 * grid.2 := le_mul_of_one_le_right (by omega) hcols
    have hback : GridLe grid.1 grid.2 (max 1 (min nThreads 64)) 1 := by
      unfold GridLe
      omega
    exact (GridLe.antisymm hrows hback hle).2
  · intro nThreads' hle
    have hgrid : GridLe grid.1 grid.2 _ _ :=
      hbest nThreads' _ _ ((hfeasible nThreads).mono hle)
    unfold GridLe at hgrid
    omega

end Grid

/-- Twelve workers on a 3840×64 destination of at least 16 rows a stripe: the
rows hold four workers, the columns the other factor. -/
theorem tile_grid_optimal_of_short_frame :
    GridFeasible 12 ⟨1920, 32, 3840, 64⟩ 16 64 (decideTileGrid 12 ⟨1920, 32, 3840, 64⟩ 16 64).1
      (decideTileGrid 12 ⟨1920, 32, 3840, 64⟩ 16 64).2 :=
  (@tile_grid_optimal ⟨1920, 32, 3840, 64⟩ (by decide) (by decide) 12 16 64).1

end AutoUpscale
