/-
The zimg worker grid that Open and the first frame resolve
(`src/zimg_helpers.h`, `src/scaler_zimg.c`).

`resolveIoPlan` is the pure resolver behind both call sites.  The main result,
`planned_grid_builds`, is the promise its callers live on: whatever the worker
budget, the options and the alignment of the first frame, every cell of the
resolved grid has non-degenerate ranges whose extents and origins are multiples
of the chroma's subsample factors, so no cell of the all-or-nothing pool can be
rejected for its geometry.

`resolveIoPlan_rows_only` compares the two source modes: a grid that came out
rows-only with source zero-copy is the grid of the copy-in mode too.
-/
import AutoUpscale.ScalerContext
import AutoUpscale.TileGrid

namespace AutoUpscale

/-- `UP_STRIPE_MIN_DST_LINES` -/
def stripeMinDstLines : ℤ := 16

/-- `ZIMG_COL_MIN_WIDTH` -/
def zimgColMinWidth : ℤ := 64

/-- `up_zimg_stripe_min_lines` -/
def zimgStripeMinLines (userValue : ℤ) : ℤ :=
  if userValue > 0 then userValue else stripeMinDstLines

/-- `up_zimg_io_req_t` -/
structure ZimgIoReq where
  workerBudget : ℤ
  srcW : ℤ
  srcH : ℤ
  dstW : ℤ
  dstH : ℤ
  stripeMin : ℤ
  colMin : ℤ
  srcZerocopy : Bool
  dstZerocopy : Bool
  deriving DecidableEq, Repr

/-- `up_zimg_io_plan_t` -/
structure ZimgIoPlan where
  nRows : ℤ
  nCols : ℤ
  nThreads : ℤ
  colTiled : Bool
  srcZerocopy : Bool
  dstZerocopy : Bool
  deriving DecidableEq, Repr

/-- The `geom` local of `up_zimg_resolve_io_plan`. -/
def ZimgIoReq.geom (req : ZimgIoReq) : TileGeom :=
  ⟨req.srcW, req.srcH, req.dstW, req.dstH⟩

/-- `up_zimg_resolve_io_plan` -/
def resolveIoPlan (req : ZimgIoReq) : ZimgIoPlan :=
  let (rows, cols) := decideTileGrid req.workerBudget req.geom req.stripeMin
    (if req.srcZerocopy then req.colMin else 0)
  { nRows := rows
    nCols := cols
    nThreads := rows * cols
    colTiled := decide (cols > 1)
    srcZerocopy := req.srcZerocopy
    dstZerocopy := req.dstZerocopy && decide (cols ≤ 1) }

/-- `zimg_build_io_req` -/
def zimgBuildIoReq (ctx : ScalerCtx) (workerBudget : ℤ) (srcAligned dstAligned : Bool) :
    ZimgIoReq :=
  { workerBudget := workerBudget
    srcW := ctx.srcW
    srcH := ctx.srcH
    dstW := ctx.dstW
    dstH := ctx.dstH
    stripeMin := zimgStripeMinLines ctx.minStripeLines
    colMin := zimgColMinWidth
    srcZerocopy := decide (ctx.srcZerocopy ≠ 0) && srcAligned
    dstZerocopy := decide (ctx.zerocopy ≠ 0) && dstAligned }

/-- `cell_bounds_t` -/
structure CellBounds where
  rows : StripeBounds
  cols : StripeBounds
  deriving DecidableEq, Repr

/-- The sizes of a context. -/
def ScalerCtx.geom (ctx : ScalerCtx) : TileGeom :=
  ⟨ctx.srcW, ctx.srcH, ctx.dstW, ctx.dstH⟩

/-- The geometry half of `zimg_pool_construct`: the ranges of cell `i`, `none`
when either axis is degenerate. -/
def zimgCellBounds (plan : ZimgIoPlan) (geom : TileGeom) (i : ℤ) : Option CellBounds :=
  let row := i / plan.nCols
  let col := i % plan.nCols
  let rows := computeStripeBounds row plan.nRows geom.srcH geom.dstH default
  if ¬ rows.1 then none
  else
    let cols := computeStripeBounds col plan.nCols geom.srcW geom.dstW default
    if ¬ cols.1 then none else some ⟨rows.2, cols.2⟩

/-! ### The resolved grid -/

theorem resolveIoPlan_grid (req : ZimgIoReq) :
    ((resolveIoPlan req).nRows, (resolveIoPlan req).nCols) =
      decideTileGrid req.workerBudget req.geom req.stripeMin
        (if req.srcZerocopy then req.colMin else 0) := rfl

/-- Both axes of the resolved grid are valid partitions within the budget. -/
theorem resolveIoPlan_feasible (req : ZimgIoReq) :
    TileFeasible req.workerBudget req.geom req.stripeMin
      (if req.srcZerocopy then req.colMin else 0)
      (resolveIoPlan req).nRows (resolveIoPlan req).nCols :=
  decideTileGrid_feasible _ _ _ _

/-- Without source zero-copy the resolver never tiles columns. -/
theorem resolveIoPlan_cols_of_copy_in {req : ZimgIoReq} (h : req.srcZerocopy = false) :
    (resolveIoPlan req).nCols = 1 := by
  have hf := resolveIoPlan_feasible req
  rw [h] at hf
  have hlim : tileAxisLimit req.geom.dstW 0 1 (tileBudget req.workerBudget) = 1 := by
    have hb := (tileBudget_bounds req.workerBudget).1
    unfold tileAxisLimit
    simp only [gt_iff_lt, lt_irrefl, if_false]
    rw [if_neg (by omega)]
  have hle := hf.cols_le
  simp only [Bool.false_eq_true, if_false, hlim] at hle
  have := hf.cols_pos
  omega

/-- Column tiling implies source zero-copy and excludes destination zero-copy. -/
theorem resolveIoPlan_colTiled {req : ZimgIoReq} (h : (resolveIoPlan req).colTiled = true) :
    (resolveIoPlan req).srcZerocopy = true ∧ (resolveIoPlan req).dstZerocopy = false := by
  have hcols : (resolveIoPlan req).nCols > 1 := of_decide_eq_true h
  constructor
  · by_contra hsrc
    have hoff : req.srcZerocopy = false := Bool.not_eq_true _ ▸ hsrc
    have := resolveIoPlan_cols_of_copy_in hoff
    omega
  · have hdst : (resolveIoPlan req).dstZerocopy
        = (req.dstZerocopy && decide ((resolveIoPlan req).nCols ≤ 1)) := rfl
    rw [hdst, decide_eq_false (by omega), Bool.and_false]

/-- A rows-only grid does not depend on the source mode: it has as many rows as
the row search allows, with or without column tiling to choose from. -/
theorem resolveIoPlan_rows_only (req : ZimgIoReq) (hzc : req.srcZerocopy = true)
    (hcols : (resolveIoPlan req).nCols = 1) :
    (resolveIoPlan { req with srcZerocopy := false }).nRows = (resolveIoPlan req).nRows ∧
      (resolveIoPlan { req with srcZerocopy := false }).nCols = (resolveIoPlan req).nCols := by
  have hoff : (resolveIoPlan { req with srcZerocopy := false }).nCols = 1 :=
    resolveIoPlan_cols_of_copy_in rfl
  have fon := resolveIoPlan_feasible req
  have foff := resolveIoPlan_feasible { req with srcZerocopy := false }
  have hgeom : ({ req with srcZerocopy := false } : ZimgIoReq).geom = req.geom := rfl
  have gon := resolveIoPlan_grid req
  have goff := resolveIoPlan_grid { req with srcZerocopy := false }
  rw [hzc, if_pos rfl] at gon fon
  simp only [Bool.false_eq_true, if_false, hgeom] at goff foff
  generalize resolveIoPlan { req with srcZerocopy := false } = off at *
  generalize resolveIoPlan req = on at *
  rw [hcols] at fon
  rw [hoff] at foff
  -- each grid is feasible for the other search, so neither has fewer rows
  have hb := (tileBudget_bounds req.workerBudget).1
  have h1 : TileFeasible req.workerBudget req.geom req.stripeMin req.colMin off.nRows 1 :=
    ⟨foff.rows_pos, le_refl _, foff.cells_le, foff.rows_le,
      (tileAxisLimit_bounds _ _ _ _ hb).1, foff.rows_ok, axisPartitionOk_one _ _⟩
  have h2 : TileFeasible req.workerBudget req.geom req.stripeMin 0 on.nRows 1 :=
    ⟨fon.rows_pos, le_refl _, fon.cells_le, fon.rows_le,
      (tileAxisLimit_bounds _ _ _ _ hb).1, fon.rows_ok, axisPartitionOk_one _ _⟩
  have hle1 := decideTileGrid_optimal h1
  have hle2 := decideTileGrid_optimal h2
  rw [← gon, hcols] at hle1
  rw [← goff, hoff] at hle2
  obtain ⟨hrows, -⟩ := GridLe.antisymm foff.rows_pos hle1 hle2
  exact ⟨hrows, hoff.trans hcols.symm⟩

/-! ### Cells of a planned grid -/

/-- Every cut of an even axis is even. -/
theorem dstCut_even_of_even {n dst : ℤ} (hdst : dst % 2 = 0) (k : ℤ) :
    dstCut n dst k % 2 = 0 := by
  by_cases hk : k = n
  · rw [hk, dstCut_last, hdst]
  · exact dstCut_even hk

theorem srcCut_even_of_even {n src dst : ℤ} (hsrc : src % 2 = 0) (k : ℤ) :
    srcCut n src dst k % 2 = 0 := by
  by_cases hk : k = n
  · rw [hk, srcCut_last, hsrc]
  · exact srcCut_even hk

/-- With shift exponent 0 everything is a multiple of the factor; with exponent
1 evenness is what is needed. -/
theorem two_pow_dvd_of_even {sub : ℕ} (hsub : sub ≤ 1) {x : ℤ} (hx : sub ≠ 0 → x % 2 = 0) :
    (2 : ℤ) ^ sub ∣ x := by
  interval_cases sub
  · exact one_dvd x
  · exact Int.dvd_of_emod_eq_zero (hx one_ne_zero)

/-- What `zimg_filter_graph_build` requires of one cell's description: the full
source width, the active source window, the destination tile and all origins
are multiples of the subsample factors of their axis. -/
structure CellAligned (subW subH : ℕ) (ctx : ScalerCtx) (c : CellBounds) : Prop where
  srcFullW : (2 : ℤ) ^ subW ∣ ctx.srcW
  actLeft : (2 : ℤ) ^ subW ∣ c.cols.srcStart
  actWidth : (2 : ℤ) ^ subW ∣ c.cols.srcEnd - c.cols.srcStart
  dstLeft : (2 : ℤ) ^ subW ∣ c.cols.dstStart
  dstWidth : (2 : ℤ) ^ subW ∣ c.cols.dstEnd - c.cols.dstStart
  srcTop : (2 : ℤ) ^ subH ∣ c.rows.srcStart
  srcHeight : (2 : ℤ) ^ subH ∣ c.rows.srcEnd - c.rows.srcStart
  dstTop : (2 : ℤ) ^ subH ∣ c.rows.dstStart
  dstHeight : (2 : ℤ) ^ subH ∣ c.rows.dstEnd - c.rows.dstStart

section Planned

variable {ctx : ScalerCtx} (workerBudget : ℤ) (srcAligned dstAligned : Bool)

/-- The plan the two call sites resolve for a context. -/
def zimgPlan (ctx : ScalerCtx) (workerBudget : ℤ) (srcAligned dstAligned : Bool) : ZimgIoPlan :=
  resolveIoPlan (zimgBuildIoReq ctx workerBudget srcAligned dstAligned)

/-- Row and column of a cell index. -/
theorem cellIndex_bounds {rows cols i : ℤ} (hc : 1 ≤ cols) (hi : 0 ≤ i) (hin : i < rows * cols) :
    0 ≤ i / cols ∧ i / cols < rows ∧ 0 ≤ i % cols ∧ i % cols < cols :=
  ⟨Int.ediv_nonneg hi (by omega), Int.ediv_lt_of_lt_mul (by omega) hin,
    Int.emod_nonneg _ (by omega), Int.emod_lt_of_pos _ (by omega)⟩

/-- The ranges of cell `i`: consecutive cuts of both axes. -/
def gridCell (plan : ZimgIoPlan) (geom : TileGeom) (i : ℤ) : CellBounds where
  rows :=
    { srcStart := srcCut plan.nRows geom.srcH geom.dstH (i / plan.nCols)
      srcEnd := srcCut plan.nRows geom.srcH geom.dstH (i / plan.nCols + 1)
      dstStart := dstCut plan.nRows geom.dstH (i / plan.nCols)
      dstEnd := dstCut plan.nRows geom.dstH (i / plan.nCols + 1) }
  cols :=
    { srcStart := srcCut plan.nCols geom.srcW geom.dstW (i % plan.nCols)
      srcEnd := srcCut plan.nCols geom.srcW geom.dstW (i % plan.nCols + 1)
      dstStart := dstCut plan.nCols geom.dstW (i % plan.nCols)
      dstEnd := dstCut plan.nCols geom.dstW (i % plan.nCols + 1) }

/-- Every cell of the plan has bounds. -/
theorem zimgCellBounds_eq (hctx : OpenPlanned ctx) {i : ℤ} (hi : 0 ≤ i)
    (hin : i < (zimgPlan ctx workerBudget srcAligned dstAligned).nThreads) :
    zimgCellBounds (zimgPlan ctx workerBudget srcAligned dstAligned) ctx.geom i =
      some (gridCell (zimgPlan ctx workerBudget srcAligned dstAligned) ctx.geom i) := by
  have hf := resolveIoPlan_feasible (zimgBuildIoReq ctx workerBudget srcAligned dstAligned)
  have hn : (zimgPlan ctx workerBudget srcAligned dstAligned).nThreads =
      (zimgPlan ctx workerBudget srcAligned dstAligned).nRows *
        (zimgPlan ctx workerBudget srcAligned dstAligned).nCols := rfl
  obtain ⟨hr0, hr1, hc0, hc1⟩ := cellIndex_bounds hf.cols_pos hi (hn ▸ hin)
  obtain ⟨hw, hh, -, -, hdw, hdh, -, -, -, -⟩ := hctx.target
  dsimp only at hdw hdh
  have hrow := computeStripeBounds_of_axisPartitionOk hh (by omega : 0 < ctx.dstH)
    hf.rows_ok hr0 hr1 default
  have hcol := computeStripeBounds_of_axisPartitionOk hw (by omega : 0 < ctx.dstW)
    hf.cols_ok hc0 hc1 default
  dsimp only [zimgCellBounds, zimgPlan, ScalerCtx.geom]
  rw [hrow, hcol]
  rfl

/-- The bounds suit the chroma. -/
theorem gridCell_aligned (hctx : OpenPlanned ctx) {subW subH : ℕ} {swap : Bool}
    (hchroma : chromaToZimg ctx.chroma = some (subW, subH, swap)) (plan : ZimgIoPlan) (i : ℤ) :
    CellAligned subW subH ctx (gridCell plan ctx.geom i) := by
  obtain ⟨hsw, hsh, hsub⟩ := chromaToZimg_spec hchroma
  have hsrcW : subW ≠ 0 → ctx.srcW % 2 = 0 := hctx.srcW_even subW subH hsub
  have hsrcH : subH ≠ 0 → ctx.srcH % 2 = 0 := hctx.srcH_even subW subH hsub
  have hdstW : ctx.dstW % 2 = 0 := hctx.target.width_even
  have hdstH : ctx.dstH % 2 = 0 := hctx.target.height_even
  have hsc : ∀ n k, (2 : ℤ) ^ subW ∣ srcCut n ctx.srcW ctx.dstW k := fun n k =>
    two_pow_dvd_of_even hsw fun h => srcCut_even_of_even (hsrcW h) k
  have hsr : ∀ n k, (2 : ℤ) ^ subH ∣ srcCut n ctx.srcH ctx.dstH k := fun n k =>
    two_pow_dvd_of_even hsh fun h => srcCut_even_of_even (hsrcH h) k
  have hdc : ∀ n k, (2 : ℤ) ^ subW ∣ dstCut n ctx.dstW k := fun n k =>
    two_pow_dvd_of_even hsw fun _ => dstCut_even_of_even hdstW k
  have hdr : ∀ n k, (2 : ℤ) ^ subH ∣ dstCut n ctx.dstH k := fun n k =>
    two_pow_dvd_of_even hsh fun _ => dstCut_even_of_even hdstH k
  exact ⟨two_pow_dvd_of_even hsw hsrcW, hsc _ _, dvd_sub (hsc _ _) (hsc _ _), hdc _ _,
    dvd_sub (hdc _ _) (hdc _ _), hsr _ _, dvd_sub (hsr _ _) (hsr _ _), hdr _ _,
    dvd_sub (hdr _ _) (hdr _ _)⟩

/-- **The planned grid can always be built.**  For every negotiated format on
which planning succeeds with a chroma zimg takes, every worker budget and every
combination of options and plane alignments: the worker count is the cell count
and within the budget, every cell has valid bounds that meet zimg's subsampling
requirements, and column tiling goes with source zero-copy and destination
copy-out. -/
theorem planned_grid_builds {fmt : VideoFormat} {cfg : Config} {cores : ℤ}
    (hplan : planOpen fmt cfg cores = some ctx) {subW subH : ℕ} {swap : Bool}
    (hchroma : chromaToZimg ctx.chroma = some (subW, subH, swap)) :
    let plan := zimgPlan ctx workerBudget srcAligned dstAligned
    plan.nThreads = plan.nRows * plan.nCols ∧
      1 ≤ plan.nThreads ∧ plan.nThreads ≤ max 1 (min workerBudget 64) ∧
      (∀ i, 0 ≤ i → i < plan.nThreads →
        ∃ c, zimgCellBounds plan ctx.geom i = some c ∧ CellAligned subW subH ctx c) ∧
      (plan.colTiled = true → plan.srcZerocopy = true ∧ plan.dstZerocopy = false) := by
  intro plan
  have hctx := planOpen_spec hplan
  have hf := resolveIoPlan_feasible (zimgBuildIoReq ctx workerBudget srcAligned dstAligned)
  refine ⟨rfl, ?_, ?_, fun i hi hin => ?_, resolveIoPlan_colTiled⟩
  · exact one_le_mul_of_one_le_of_one_le hf.rows_pos hf.cols_pos
  · exact hf.cells_le.trans (tileBudget_bounds workerBudget).2
  · exact ⟨_, zimgCellBounds_eq workerBudget srcAligned dstAligned hctx hi hin,
      gridCell_aligned hctx hchroma _ i⟩

/-- An odd crop of a 4:2:0 picture, planned for a 1080-row target. -/
theorem planned_grid_builds_odd_crop :
    ∃ ctx, planOpen ⟨fourcc 'I' '4' '2' '0', 640, 360, 637, 357, 1, 1⟩
        ⟨2, 3, 720, 20, 0, 0, 1, 1, 1, 0⟩ 8 = some ctx ∧
      ∀ i, 0 ≤ i → i < (zimgPlan ctx 12 true false).nThreads →
        ∃ c, zimgCellBounds (zimgPlan ctx 12 true false) ctx.geom i = some c ∧
          CellAligned 1 1 ctx c :=
  ⟨_, rfl, (planned_grid_builds 12 true false
    (show planOpen ⟨fourcc 'I' '4' '2' '0', 640, 360, 637, 357, 1, 1⟩
      ⟨2, 3, 720, 20, 0, 0, 1, 1, 1, 0⟩ 8 = some _ from rfl)
    (show chromaToZimg (fourcc 'I' '4' '2' '0') = some (1, 1, false) from by decide)).2.2.2.1⟩

end Planned

end AutoUpscale
