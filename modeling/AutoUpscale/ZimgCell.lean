/-
One cell of the zimg worker grid (`src/scaler_zimg.c`).

A worker's frame is a list of memory steps: the `memcpy` calls of copy-in, the
bytes its graph writes, the `memcpy` calls of copy-out (`zimgWorkerRun`).

libzimg itself is not modelled.  `ZimgLib` is what the backend relies on: a
graph's output is a function of the source image it is described with, and a run
that returns 0 writes all bytes of the destination image it is described with,
in whatever order and as often as it likes, and no others.
-/
import AutoUpscale.PlaneBuffer
import AutoUpscale.PlaneCopy
import AutoUpscale.ZimgPlan

namespace AutoUpscale

open DisjointParallel PlaneMemory

/-! ### libzimg -/

/-- The `zimg_resample_filter_e` values in use. -/
inductive ResampleFilter
  | bilinear | bicubic | spline36 | lanczos
  deriving DecidableEq, Repr

/-- `UP_ALGO_FAST_BILINEAR`, `UP_ALGO_BICUBIC`, `UP_ALGO_LANCZOS` -/
def algoFastBilinear : ℤ := 0
def algoBicubic : ℤ := 1
def algoLanczos : ℤ := 2

/-- `AlgoToZimg` -/
def algoToZimg (algo : ℤ) : ResampleFilter :=
  if algo = algoFastBilinear then .bilinear
  else if algo = algoBicubic then .bicubic
  else if algo = algoLanczos then .lanczos
  else .spline36

/-- The fields of `zimg_image_format` that differ between graphs; the default
active region is `none`. -/
structure ZimgImageFormat where
  width : ℤ
  height : ℤ
  subsampleW : ℕ
  subsampleH : ℕ
  activeRegion : Option (ℤ × ℤ)
  deriving DecidableEq, Repr

/-- The columns of a plane of an image. -/
def ZimgImageFormat.planeWidth (f : ZimgImageFormat) (p : Plane) : ℕ :=
  p.extent f.subsampleW f.width

/-- The rows of a plane of an image. -/
def ZimgImageFormat.planeHeight (f : ZimgImageFormat) (p : Plane) : ℕ :=
  p.extent f.subsampleH f.height

/-- A `zimg_filter_graph`: what it was built from. -/
structure ZimgGraph where
  srcFmt : ZimgImageFormat
  dstFmt : ZimgImageFormat
  resampleFilter : ResampleFilter
  deriving DecidableEq, Repr

/-- Byte `x` of row `y` of each plane. -/
abbrev Image := Plane → ℕ → ℕ → UInt8

/-- libzimg. -/
structure ZimgLib where
  output : ZimgGraph → Image → Image
  /-- The bytes (plane, row, column) written by a run that returns `rc`. -/
  writes : ZimgGraph → ℤ → List (Plane × ℕ × ℕ)
  writes_within : ∀ g rc p y x, (p, y, x) ∈ writes g rc →
    y < g.dstFmt.planeHeight p ∧ x < g.dstFmt.planeWidth p
  writes_all : ∀ g p y x, y < g.dstFmt.planeHeight p → x < g.dstFmt.planeWidth p →
    (p, y, x) ∈ writes g 0

/-- `zimg_image_buffer` and its const twin, whose planes have no row mask. -/
structure ImageBuffer where
  data : Plane → ℕ
  stride : Plane → ℤ

/-- `set_buf_plane` on all three planes of a view. -/
def setBufPlanes (view : PlaneView) (offsetRows : Plane → ℤ) : ImageBuffer where
  data p := view.data p + (offsetRows p).toNat * (view.pitch p).toNat
  stride := view.pitch

/-- The address of a byte of an image. -/
def ImageBuffer.addr (b : ImageBuffer) (p : Plane) (y x : ℕ) : ℕ :=
  PlaneMemory.addr (b.data p) (b.stride p).toNat y x

/-- The image a memory shows in a buffer, black outside its format. -/
def readImage (m : Memory) (b : ImageBuffer) (f : ZimgImageFormat) : Image := fun p y x =>
  if y < f.planeHeight p ∧ x < f.planeWidth p then m (b.addr p y x) else 0

/-! ### Workers -/

/-- `worker_cell_geom_t` -/
structure WorkerCellGeom where
  srcYStart : ℤ
  srcYEnd : ℤ
  dstYStart : ℤ
  dstYEnd : ℤ
  dstXStart : ℤ
  srcW : ℤ
  dstW : ℤ
  subW : ℕ
  subH : ℕ
  deriving DecidableEq, Repr, Inhabited

/-- `stripe_worker_t`; the result of a run is part of the run. -/
structure StripeWorker where
  graph : Option ZimgGraph
  cell : WorkerCellGeom
  colTiled : Bool
  copyIn : Bool
  copyOut : Bool
  src : PlaneView
  dst : PlaneView
  tileDst : PlaneBuffer
  vlcSrc : PlaneView
  vlcDst : PlaneView

/-- A view of NULL planes. -/
def nullView : PlaneView := ⟨fun _ => 0, fun _ => 0⟩

/-- A buffer of NULL planes. -/
def nullBuffer : PlaneBuffer := ⟨fun _ => 0, ⟨fun _ => 0, fun _ => 0⟩⟩

/-- A zeroed worker slot. -/
def zeroWorker : StripeWorker :=
  { graph := none, cell := default, colTiled := false, copyIn := false, copyOut := false
    src := nullView, dst := nullView, tileDst := nullBuffer
    vlcSrc := nullView, vlcDst := nullView }

/-- The start of row `row` of a plane. -/
def PlaneView.rowAddr (view : PlaneView) (p : Plane) (row : ℤ) : ℕ :=
  view.data p + row.toNat * (view.pitch p).toNat

/-- `worker_copy_in_stripe` -/
def workerCopyInStripe (w : StripeWorker) : List Memcpy :=
  let rows := w.cell.srcYEnd - w.cell.srcYStart
  let cs := w.cell.srcYStart >>> w.cell.subH
  let crows := w.cell.srcYEnd >>> w.cell.subH - cs
  let cw := chromaDim w.cell.srcW w.cell.subW
  copyPlaneSteps (w.src.rowAddr .y w.cell.srcYStart) (w.src.pitch .y)
      (w.vlcSrc.rowAddr .y w.cell.srcYStart) (w.vlcSrc.pitch .y) w.cell.srcW rows ++
    [Plane.u, .v].flatMap fun p =>
      copyPlaneSteps (w.src.rowAddr p cs) (w.src.pitch p)
        (w.vlcSrc.rowAddr p cs) (w.vlcSrc.pitch p) cw crows

/-- `worker_copy_out_stripe` -/
def workerCopyOutStripe (w : StripeWorker) : List Memcpy :=
  let rows := w.cell.dstYEnd - w.cell.dstYStart
  let cs := w.cell.dstYStart >>> w.cell.subH
  let crows := w.cell.dstYEnd >>> w.cell.subH - cs
  let cw := chromaDim w.cell.dstW w.cell.subW
  copyPlaneSteps (w.vlcDst.rowAddr .y w.cell.dstYStart) (w.vlcDst.pitch .y)
      (w.dst.rowAddr .y w.cell.dstYStart) (w.dst.pitch .y) w.cell.dstW rows ++
    [Plane.u, .v].flatMap fun p =>
      copyPlaneSteps (w.vlcDst.rowAddr p cs) (w.vlcDst.pitch p)
        (w.dst.rowAddr p cs) (w.dst.pitch p) cw crows

/-- `worker_copy_out_tile` -/
def workerCopyOutTile (w : StripeWorker) : List Memcpy :=
  let rows := w.cell.dstYEnd - w.cell.dstYStart
  let cx := w.cell.dstXStart
  let cs := w.cell.dstYStart >>> w.cell.subH
  let crows := w.cell.dstYEnd >>> w.cell.subH - cs
  let cw := chromaDim w.cell.dstW w.cell.subW
  let cxc := w.cell.dstXStart >>> w.cell.subW
  copyPlaneSteps (w.vlcDst.rowAddr .y w.cell.dstYStart + cx.toNat) (w.vlcDst.pitch .y)
      (w.dst.data .y) (w.dst.pitch .y) w.cell.dstW rows ++
    [Plane.u, .v].flatMap fun p =>
      copyPlaneSteps (w.vlcDst.rowAddr p cs + cxc.toNat) (w.vlcDst.pitch p)
        (w.dst.data p) (w.dst.pitch p) cw crows

/-- `worker_emit_output` -/
def workerEmitOutput (w : StripeWorker) (result : ℤ) : List Memcpy :=
  if result ≠ 0 then []
  else if w.colTiled then workerCopyOutTile w
  else if w.copyOut then workerCopyOutStripe w
  else []

/-- A memory step of a cell: a block copy, or byte `(p, y, x)` of a graph's
output. -/
inductive CellStep
  | copy (c : Memcpy)
  | graph (g : ZimgGraph) (sb db : ImageBuffer) (p : Plane) (y x : ℕ)

def CellStep.run (lib : ZimgLib) : CellStep → Memory → Memory
  | .copy c, m => c.run m
  | .graph g sb db p y x, m =>
    store m (db.addr p y x) (lib.output g (readImage m sb g.srcFmt) p y x)

/-- The addresses a step writes. -/
def CellStep.writes : CellStep → Set ℕ
  | .copy c => bytes c.dst c.n
  | .graph _ _ db p y x => {db.addr p y x}

/-- The `src_offs` of `zimg_worker_run`. -/
def StripeWorker.srcOffs (w : StripeWorker) : Plane → ℤ
  | .y => w.cell.srcYStart
  | _ => w.cell.srcYStart >>> w.cell.subH

/-- The `dst_offs` of `zimg_worker_run`. -/
def StripeWorker.dstOffs (w : StripeWorker) : Plane → ℤ
  | .y => if w.colTiled then 0 else w.cell.dstYStart
  | _ => if w.colTiled then 0 else w.cell.dstYStart >>> w.cell.subH

/-- The `sb` of `zimg_worker_run`. -/
def StripeWorker.sb (w : StripeWorker) : ImageBuffer := setBufPlanes w.src w.srcOffs

/-- The `db` of `zimg_worker_run`. -/
def StripeWorker.db (w : StripeWorker) : ImageBuffer := setBufPlanes w.dst w.dstOffs

/-- `zimg_filter_graph_process` on a cell's buffers, returning `rc`. -/
def filterGraphProcess (lib : ZimgLib) (g : ZimgGraph) (sb db : ImageBuffer) (rc : ℤ) :
    List CellStep :=
  (lib.writes g rc).map fun b => .graph g sb db b.1 b.2.1 b.2.2

/-- `zimg_worker_run` on a worker whose graph is `g`, `rc` being what the graph
returns. -/
def zimgWorkerRun (lib : ZimgLib) (w : StripeWorker) (g : ZimgGraph) (rc : ℤ) : List CellStep :=
  (if w.copyIn then (workerCopyInStripe w).map .copy else []) ++
    filterGraphProcess lib g w.sb w.db rc ++
    (workerEmitOutput w (if rc = 0 then 0 else -1)).map .copy

/-! ### Building a cell -/

/-- `build_stripe_graph`, up to libzimg's accepting it -/
def buildStripeGraph (srcFullW : ℤ) (c : CellBounds) (subW subH : ℕ) (filt : ResampleFilter) :
    ZimgGraph :=
  let srcStripeH := c.rows.srcEnd - c.rows.srcStart
  let dstStripeH := c.rows.dstEnd - c.rows.dstStart
  let actLeft := c.cols.srcStart
  let actWidth := c.cols.srcEnd - c.cols.srcStart
  let dstW := c.cols.dstEnd - c.cols.dstStart
  { srcFmt :=
      { width := srcFullW
        height := srcStripeH
        subsampleW := subW
        subsampleH := subH
        activeRegion :=
          if actLeft > 0 ∨ actWidth < srcFullW then some (actLeft, actWidth) else none }
    dstFmt :=
      { width := dstW
        height := dstStripeH
        subsampleW := subW
        subsampleH := subH
        activeRegion := none }
    resampleFilter := filt }

/-- The `cell` fields that `init_stripe_worker` sets. -/
def workerCellGeom (c : CellBounds) (subW subH : ℕ) : WorkerCellGeom where
  srcYStart := c.rows.srcStart
  srcYEnd := c.rows.srcEnd
  dstYStart := c.rows.dstStart
  dstYEnd := c.rows.dstEnd
  dstXStart := c.cols.dstStart
  srcW := c.cols.srcEnd - c.cols.srcStart
  dstW := c.cols.dstEnd - c.cols.dstStart
  subW := if subW < 8 then subW else 0
  subH := if subH < 8 then subH else 0

end AutoUpscale
