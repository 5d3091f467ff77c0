/-
The zimg grid as a tiling of every plane.

`CellBounds.dstRect` is the rectangle of a destination plane that a cell makes,
`CellBounds.srcRect` the source rows it makes it from.

- `exists_dstRect`, `dstRect_unique`: every byte of a destination plane is in the
  rectangle of exactly one cell.
- `srcRect_unique`: in a grid without column tiles no source row belongs to two
  cells.
-/
import AutoUpscale.GridPartition
import AutoUpscale.PlaneBuffer
import AutoUpscale.ZimgPlan

namespace AutoUpscale

open GridPartition

/-- A rectangle of a plane. -/
structure PlaneRect where
  top : ℕ
  left : ℕ
  rows : ℕ
  cols : ℕ
  deriving DecidableEq, Repr

/-- Row `y` and column `x` of the plane are in the rectangle. -/
def PlaneRect.Holds (r : PlaneRect) (y x : ℕ) : Prop :=
  (r.top ≤ y ∧ y < r.top + r.rows) ∧ r.left ≤ x ∧ x < r.left + r.cols

theorem PlaneRect.holds_add {r : PlaneRect} {y x : ℕ} (hy : y < r.rows) (hx : x < r.cols) :
    r.Holds (r.top + y) (r.left + x) :=
  ⟨⟨by omega, by omega⟩, by omega, by omega⟩

/-- The rectangle of plane `q` that a cell makes. -/
def CellBounds.dstRect (c : CellBounds) (subW subH : ℕ) (q : Plane) : PlaneRect where
  top := q.extent subH c.rows.dstStart
  left := q.extent subW c.cols.dstStart
  rows := q.extent subH (c.rows.dstEnd - c.rows.dstStart)
  cols := q.extent subW (c.cols.dstEnd - c.cols.dstStart)

/-- The rows of plane `q`, `srcW` luma samples wide, that a cell is made from. -/
def CellBounds.srcRect (c : CellBounds) (srcW : ℤ) (subW subH : ℕ) (q : Plane) : PlaneRect where
  top := q.extent subH c.rows.srcStart
  left := 0
  rows := q.extent subH (c.rows.srcEnd - c.rows.srcStart)
  cols := q.extent subW srcW

/-! ### Cuts of a plane -/

/-- The destination cuts of an axis, on plane `q`. -/
def dstCuts {n dst : ℤ} (hn : 1 ≤ n) (hdst : 0 < dst) (q : Plane) (sub : ℕ) :
    Cuts n.toNat (q.extent sub dst) where
  cut k := q.extent sub (dstCut n dst k)
  zero := by rw [Nat.cast_zero, dstCut_zero (by omega), Plane.extent_zero]
  last := by rw [Int.toNat_of_nonneg (by omega), dstCut_last]
  mono hjk hkn := q.extent_mono sub (dstCut_mono (by omega) hdst (by omega) (by omega))

/-- The source cuts of an axis, on plane `q`. -/
def srcCuts {n src dst : ℤ} (hn : 1 ≤ n) (hsrc : 0 < src) (hdst : 0 < dst) (q : Plane)
    (sub : ℕ) : Cuts n.toNat (q.extent sub src) where
  cut k := q.extent sub (srcCut n src dst k)
  zero := by rw [Nat.cast_zero, srcCut_zero (by omega), Plane.extent_zero]
  last := by rw [Int.toNat_of_nonneg (by omega), srcCut_last]
  mono hjk hkn := q.extent_mono sub (srcCut_mono (by omega) hsrc hdst (by omega) (by omega))

/-- Without column tiles a cell is as wide as the picture. -/
theorem gridCell_cols_of_rows_only {plan : ZimgIoPlan} (hone : plan.nCols = 1)
    (geom : TileGeom) (i : ℤ) :
    (gridCell plan geom i).cols = ⟨0, geom.srcW, 0, geom.dstW⟩ := by
  simp only [gridCell, hone, Int.emod_one, zero_add, srcCut_last, dstCut_last,
    srcCut_zero one_pos, dstCut_zero one_pos]

/-- Both ranges of a stripe run forwards. -/
structure StripeBounds.Ordered (b : StripeBounds) : Prop where
  srcStart : 0 ≤ b.srcStart
  src : b.srcStart ≤ b.srcEnd
  dstStart : 0 ≤ b.dstStart
  dst : b.dstStart ≤ b.dstEnd

theorem cuts_ordered {n src dst k : ℤ} (hsrc : 0 < src) (hdst : 0 < dst) (hk : 0 ≤ k)
    (hkn : k + 1 ≤ n) : StripeBounds.Ordered
      ⟨srcCut n src dst k, srcCut n src dst (k + 1), dstCut n dst k, dstCut n dst (k + 1)⟩ :=
  ⟨srcCut_nonneg hsrc hdst hk (by omega),
    srcCut_mono (by omega) hsrc hdst (Int.le_add_one le_rfl) hkn,
    dstCut_nonneg hdst hk (by omega), dstCut_mono (by omega) hdst (Int.le_add_one le_rfl) hkn⟩

/-! ### The tiling -/

/-- A plan whose grid tiles the pictures of a context. -/
structure PlannedGrid (ctx : ScalerCtx) (subW subH : ℕ) (swap : Bool) (plan : ZimgIoPlan) :
    Prop where
  planned : OpenPlanned ctx
  chroma : chromaToZimg ctx.chroma = some (subW, subH, swap)
  rows : 1 ≤ plan.nRows
  cols : 1 ≤ plan.nCols

namespace PlannedGrid

variable {ctx : ScalerCtx} {subW subH : ℕ} {swap : Bool} {plan : ZimgIoPlan}
  (h : PlannedGrid ctx subW subH swap plan)
include h

theorem dstH_pos : 0 < ctx.dstH := h.planned.target.srcH_pos.trans_le h.planned.target.height_ge

theorem dstW_pos : 0 < ctx.dstW := h.planned.target.srcW_pos.trans_le h.planned.target.width_ge

theorem rows_ordered {i : ℕ} (hi : i < plan.nRows.toNat * plan.nCols.toNat) :
    (gridCell plan ctx.geom i).rows.Ordered := by
  have hr := h.rows
  have hc := h.cols
  have hlt : (i : ℤ) < plan.nRows * plan.nCols := by
    rw [← Int.toNat_of_nonneg (a := plan.nRows) (by omega),
      ← Int.toNat_of_nonneg (a := plan.nCols) (by omega)]
    exact_mod_cast hi
  obtain ⟨h0, h1, -, -⟩ := cellIndex_bounds hc (Nat.cast_nonneg i) hlt
  exact cuts_ordered h.planned.target.srcH_pos h.dstH_pos h0 (by omega)

theorem col_lt (i : ℕ) : 0 ≤ (i : ℤ) % plan.nCols ∧ (i : ℤ) % plan.nCols + 1 ≤ plan.nCols := by
  have hc := h.cols
  have := Int.emod_nonneg (i : ℤ) (b := plan.nCols) (by omega)
  have := Int.emod_lt_of_pos (i : ℤ) (b := plan.nCols) (by omega)
  omega

theorem cols_ordered (i : ℕ) : (gridCell plan ctx.geom i).cols.Ordered :=
  cuts_ordered h.planned.target.srcW_pos h.dstW_pos (h.col_lt i).1 (h.col_lt i).2

/-- No tile is wider than the picture. -/
theorem dstWidth_le (i : ℕ) : (gridCell plan ctx.geom i).cols.dstEnd -
    (gridCell plan ctx.geom i).cols.dstStart ≤ ctx.dstW := by
  have hstart := (h.cols_ordered i).dstStart
  have hend : (gridCell plan ctx.geom i).cols.dstEnd ≤ ctx.dstW :=
    dstCut_le h.cols h.dstW_pos (h.col_lt i).2
  omega

theorem cast_row (i : ℕ) : ((i / plan.nCols.toNat : ℕ) : ℤ) = i / plan.nCols := by
  have hc := h.cols
  rw [Int.natCast_div, Int.toNat_of_nonneg (by omega)]

theorem cast_col (i : ℕ) : ((i % plan.nCols.toNat : ℕ) : ℤ) = i % plan.nCols := by
  have hc := h.cols
  rw [Int.natCast_mod, Int.toNat_of_nonneg (by omega)]

/-- The rows of a rectangle lie between two cuts. -/
theorem dstRect_rows {i : ℕ} (hi : i < plan.nRows.toNat * plan.nCols.toNat) (q : Plane) :
    let r := (gridCell plan ctx.geom i).dstRect subW subH q
    let cuts := dstCuts h.rows h.dstH_pos q subH
    r.top = cuts.cut (i / plan.nCols.toNat) ∧
      r.top + r.rows = cuts.cut (i / plan.nCols.toNat + 1) := by
  have hord := h.rows_ordered hi
  have hadd := Plane.extent_add (q := q) hord.dstStart hord.dst
    (gridCell_aligned h.planned h.chroma plan i).dstTop
  simp only [CellBounds.dstRect, dstCuts, Nat.cast_add, Nat.cast_one, h.cast_row]
  exact ⟨rfl, hadd⟩

theorem dstRect_cols (i : ℕ) (q : Plane) :
    let r := (gridCell plan ctx.geom i).dstRect subW subH q
    let cuts := dstCuts h.cols h.dstW_pos q subW
    r.left = cuts.cut (i % plan.nCols.toNat) ∧
      r.left + r.cols = cuts.cut (i % plan.nCols.toNat + 1) := by
  have hord := h.cols_ordered i
  have hadd := Plane.extent_add (q := q) hord.dstStart hord.dst
    (gridCell_aligned h.planned h.chroma plan i).dstLeft
  simp only [CellBounds.dstRect, dstCuts, Nat.cast_add, Nat.cast_one, h.cast_col]
  exact ⟨rfl, hadd⟩

theorem srcRect_rows {i : ℕ} (hi : i < plan.nRows.toNat * plan.nCols.toNat) (q : Plane) :
    let r := (gridCell plan ctx.geom i).srcRect ctx.srcW subW subH q
    let cuts := srcCuts h.rows h.planned.target.srcH_pos h.dstH_pos q subH
    r.top = cuts.cut (i / plan.nCols.toNat) ∧
      r.top + r.rows = cuts.cut (i / plan.nCols.toNat + 1) := by
  have hord := h.rows_ordered hi
  have hadd := Plane.extent_add (q := q) hord.srcStart hord.src
    (gridCell_aligned h.planned h.chroma plan i).srcTop
  simp only [CellBounds.srcRect, srcCuts, Nat.cast_add, Nat.cast_one, h.cast_row]
  exact ⟨rfl, hadd⟩

/-- A rectangle is a row band and a column band. -/
theorem dstRect_holds_iff {i : ℕ} (hi : i < plan.nRows.toNat * plan.nCols.toNat) {q : Plane}
    {y x : ℕ} :
    ((gridCell plan ctx.geom i).dstRect subW subH q).Holds y x ↔
      y ∈ (dstCuts h.rows h.dstH_pos q subH).band (i / plan.nCols.toNat) ∧
        x ∈ (dstCuts h.cols h.dstW_pos q subW).band (i % plan.nCols.toNat) := by
  obtain ⟨htop, hbottom⟩ := h.dstRect_rows hi q
  obtain ⟨hleft, hright⟩ := h.dstRect_cols i q
  rw [PlaneRect.Holds, hbottom, hright, htop, hleft, Cuts.mem_band, Cuts.mem_band]

/-- A rectangle stays inside the plane. -/
theorem dstRect_within {i : ℕ} (hi : i < plan.nRows.toNat * plan.nCols.toNat) (q : Plane) :
    let r := (gridCell plan ctx.geom i).dstRect subW subH q
    r.top + r.rows ≤ q.extent subH ctx.dstH ∧ r.left + r.cols ≤ q.extent subW ctx.dstW := by
  obtain ⟨hrow, hcol⟩ := index_lt hi
  intro r
  rw [(h.dstRect_rows hi q).2, (h.dstRect_cols i q).2]
  exact ⟨Cuts.le_total _ hrow, Cuts.le_total _ hcol⟩

theorem srcRect_within {i : ℕ} (hi : i < plan.nRows.toNat * plan.nCols.toNat) (q : Plane) :
    let r := (gridCell plan ctx.geom i).srcRect ctx.srcW subW subH q
    r.top + r.rows ≤ q.extent subH ctx.srcH ∧ r.left + r.cols ≤ q.extent subW ctx.srcW := by
  intro r
  rw [(h.srcRect_rows hi q).2]
  exact ⟨Cuts.le_total _ (index_lt hi).1, (Nat.zero_add _).le⟩

/-- **Every visible byte of a plane is in the rectangle of a cell.** -/
theorem exists_dstRect {q : Plane} {y x : ℕ} (hy : y < q.extent subH ctx.dstH)
    (hx : x < q.extent subW ctx.dstW) : ∃ i < plan.nRows.toNat * plan.nCols.toNat,
      ((gridCell plan ctx.geom i).dstRect subW subH q).Holds y x := by
  obtain ⟨i, hi, hband⟩ := exists_cell (dstCuts h.rows h.dstH_pos q subH)
    (dstCuts h.cols h.dstW_pos q subW) hy hx
  exact ⟨i, hi, (h.dstRect_holds_iff hi).mpr hband⟩

theorem dstRect_unique {i j : ℕ} (hi : i < plan.nRows.toNat * plan.nCols.toNat)
    (hj : j < plan.nRows.toNat * plan.nCols.toNat) {q : Plane} {y x : ℕ}
    (hic : ((gridCell plan ctx.geom i).dstRect subW subH q).Holds y x)
    (hjc : ((gridCell plan ctx.geom j).dstRect subW subH q).Holds y x) : i = j := by
  obtain ⟨hy, hx⟩ := (h.dstRect_holds_iff hi).mp hic
  obtain ⟨hy', hx'⟩ := (h.dstRect_holds_iff hj).mp hjc
  exact cell_unique _ _ hi hj hy hx hy' hx'

/-- Cells in different rows are made from different source rows. -/
theorem srcRect_unique (hone : plan.nCols = 1) {i j : ℕ}
    (hi : i < plan.nRows.toNat * plan.nCols.toNat)
    (hj : j < plan.nRows.toNat * plan.nCols.toNat) {q : Plane} {y x : ℕ}
    (hic : ((gridCell plan ctx.geom i).srcRect ctx.srcW subW subH q).Holds y x)
    (hjc : ((gridCell plan ctx.geom j).srcRect ctx.srcW subW subH q).Holds y x) : i = j := by
  obtain ⟨htop, hbottom⟩ := h.srcRect_rows hi q
  obtain ⟨htop', hbottom'⟩ := h.srcRect_rows hj q
  have hrow := hic.1
  have hrow' := hjc.1
  rw [hbottom, htop] at hrow
  rw [hbottom', htop'] at hrow'
  have hband := Cuts.band_unique _ (index_lt hi).1 (index_lt hj).1 hrow hrow'
  simpa [hone] using hband

end PlannedGrid

end AutoUpscale
