/-
One frame of the zimg grid, byte by byte.

A byte that a frame touches is named by its buffer, plane, row and column
(`FrameByte`), whatever the I/O mode.  `Owns` says which of them a cell may
write; `owned_apart` is why the cells need no barrier between their phases.

- `frame_output`: what a frame leaves in the visible destination planes, under
  every schedule of the cells.
-/
import AutoUpscale.ZimgGrid
import AutoUpscale.ZimgReady

namespace AutoUpscale

open DisjointParallel PlaneMemory

/-! ### The bytes of a frame -/

/-- The buffers of a frame. -/
inductive FrameBuffer
  | srcPicture | dstPicture | srcScratch | dstScratch
  | tile (i : ℕ)
  deriving DecidableEq, Repr

/-- A byte of a plane of a buffer. -/
structure FrameByte where
  buffer : FrameBuffer
  plane : Plane
  row : ℕ
  col : ℕ
  deriving DecidableEq, Repr

/-- A backend and the pictures its cells are pointed at. -/
structure ZimgFrame where
  priv : ZimgPriv
  srcView : PictureView
  dstView : PictureView

namespace ZimgFrame

variable (f : ZimgFrame)

def view : FrameBuffer → PlaneView
  | .srcPicture => picturePlanes f.priv.yv12SwapUv f.srcView
  | .dstPicture => picturePlanes f.priv.yv12SwapUv f.dstView
  | .srcScratch => planeBufferView f.priv.src
  | .dstScratch => planeBufferView f.priv.dst
  | .tile i => planeBufferView (f.priv.workers i).tileDst

/-- The bounds of cell `i`. -/
def cell (i : ℕ) : CellBounds := gridCell f.priv.plan f.priv.geom i

/-- The luma width and height in use; a scratch the I/O mode does without has
none. -/
def size : FrameBuffer → ℤ × ℤ
  | .srcPicture => (f.priv.geom.srcW, f.priv.geom.srcH)
  | .dstPicture => (f.priv.geom.dstW, f.priv.geom.dstH)
  | .srcScratch =>
    if f.priv.plan.srcZerocopy then (0, 0) else (f.priv.geom.srcW, f.priv.geom.srcH)
  | .dstScratch =>
    if f.priv.plan.dstZerocopy ∨ f.priv.plan.colTiled then (0, 0)
    else (f.priv.geom.dstW, f.priv.geom.dstH)
  | .tile i =>
    if f.priv.plan.colTiled ∧ i < f.priv.pool.nWorkers then
      ((f.cell i).cols.dstEnd - (f.cell i).cols.dstStart,
        (f.cell i).rows.dstEnd - (f.cell i).rows.dstStart)
    else (0, 0)

/-- The columns in use of a plane. -/
def cols (b : FrameBuffer) (q : Plane) : ℕ := q.extent f.priv.subW (f.size b).1

/-- The rows in use of a plane. -/
def rows (b : FrameBuffer) (q : Plane) : ℕ := q.extent f.priv.subH (f.size b).2

def addr (l : FrameByte) : ℕ :=
  PlaneMemory.addr ((f.view l.buffer).data l.plane) ((f.view l.buffer).pitch l.plane).toNat
    l.row l.col

def InUse (l : FrameByte) : Prop := l.row < f.rows l.buffer l.plane ∧ l.col < f.cols l.buffer l.plane

/-- The addresses in use of a plane. -/
def bytes (b : FrameBuffer) (q : Plane) : Set ℕ :=
  rect ((f.view b).data q) ((f.view b).pitch q).toNat (f.cols b q) (f.rows b q)

/-- No plane that a frame writes shares memory with another one. -/
def Apart : Prop := ∀ b q b' q', b ≠ .srcPicture → (b, q) ≠ (b', q') →
  Disjoint (f.bytes b q) (f.bytes b' q')

/-- The source rows of cell `i`. -/
def srcRect (i : ℕ) (q : Plane) : PlaneRect :=
  (f.cell i).srcRect f.priv.geom.srcW f.priv.subW f.priv.subH q

/-- The destination rectangle of cell `i`. -/
def dstRect (i : ℕ) (q : Plane) : PlaneRect := (f.cell i).dstRect f.priv.subW f.priv.subH q

/-- The bytes that only cell `i` may write or, in a scratch, read. -/
def Owns (i : ℕ) (l : FrameByte) : Prop :=
  match l.buffer with
  | .srcPicture => False
  | .srcScratch => (f.srcRect i l.plane).Holds l.row l.col
  | .dstPicture | .dstScratch => (f.dstRect i l.plane).Holds l.row l.col
  | .tile j => j = i

/-- The addresses cell `i` may write. -/
def owned (i : ℕ) : Set ℕ := f.addr '' {l | f.InUse l ∧ f.Owns i l}

/-- The addresses cell `i` may read. -/
def touched (i : ℕ) : Set ℕ := f.addr '' {l | f.InUse l ∧ (l.buffer = .srcPicture ∨ f.Owns i l)}

end ZimgFrame

/-! ### Frames that are dispatched -/

/-- The cells of a frame are ready and the buffers large enough. -/
structure FrameReady (ctx : ScalerCtx) (f : ZimgFrame) : Prop where
  grid : PlannedGrid ctx f.priv.subW f.priv.subH f.priv.yv12SwapUv f.priv.plan
  geom : f.priv.geom = ctx.geom
  algo : f.priv.algo = algoToZimg ctx.algo
  count : f.priv.pool.nWorkers = f.priv.plan.nRows.toNat * f.priv.plan.nCols.toNat
  rowsOnly : f.priv.plan.colTiled = false → f.priv.plan.nCols = 1
  tiledModes : f.priv.plan.colTiled = true →
    f.priv.plan.srcZerocopy = true ∧ f.priv.plan.dstZerocopy = false
  pitch : ∀ b q, f.cols b q ≤ ((f.view b).pitch q).toNat
  bounds : ∀ i : ℕ, i < f.priv.pool.nWorkers →
    zimgCellBounds f.priv.plan f.priv.geom i = some (f.cell i)
  ready : ∀ i < f.priv.pool.nWorkers, CellReady f.priv (f.cell i) (f.priv.workers i)
  pointed : ∀ i < f.priv.pool.nWorkers, CellPointed f.priv f.srcView f.dstView (f.priv.workers i)

theorem chromaPhysicalPlaneIndex_lt (q : Plane) (swap : Bool) :
    chromaPhysicalPlaneIndex q.index swap < 3 ∧
      (chromaPhysicalPlaneIndex q.index swap = 0 ↔ q = .y) := by
  cases q <;> cases swap <;> decide

/-- The pitch of a picture plane takes a row of the region. -/
theorem le_picturePlanes {pic : Option Picture} {c subW subH : ℕ} {swap : Bool}
    {region : PictureRegion} {v : PictureView}
    (hc : chromaToZimg c = some (subW, subH, swap))
    (h : pictureViewInit pic c region = some v) (q : Plane) :
    q.extent subW region.width ≤ ((picturePlanes swap v).pitch q).toNat := by
  obtain ⟨hlt, hzero⟩ := chromaPhysicalPlaneIndex_lt q swap
  have hle := pictureViewInit_planar hc h hlt
  have hshift : (if chromaPhysicalPlaneIndex q.index swap = 0 then 0 else subW) =
      q.shift subW := by
    cases q
    · exact if_pos (hzero.mpr rfl)
    · exact if_neg fun h0 => absurd (hzero.mp h0) (by decide)
    · exact if_neg fun h0 => absurd (hzero.mp h0) (by decide)
  rwa [hshift] at hle

section Ready

variable {ctx : ScalerCtx} {workerBudget : ℤ} {srcView dstView : PictureView} {rc : ℕ → ℤ}
  {r : ZimgProcessed}

theorem zimgFrameViewsInit_eq {src dst : Option Picture}
    (h : zimgFrameViewsInit ctx src dst = some (srcView, dstView)) :
    pictureViewInit src ctx.chroma (scalerSrcRegion ctx) = some srcView ∧
      pictureViewInit dst ctx.chroma (scalerDstRegion ctx) = some dstView := by
  unfold zimgFrameViewsInit at h
  split at h
  · cases h
  rename_i hsrc
  split at h
  · cases h
  rename_i hdst
  obtain ⟨rfl, rfl⟩ := Prod.mk.inj (Option.some.inj h)
  exact ⟨hsrc, hdst⟩

/-- A frame that reports success was ready when it was dispatched. -/
theorem FrameDispatched.frameReady (hctx : OpenPlanned ctx) {src dst : Option Picture}
    (hviews : zimgFrameViewsInit ctx src dst = some (srcView, dstView))
    (h : FrameDispatched ctx workerBudget srcView dstView rc r) :
    FrameReady ctx ⟨r.priv, srcView, dstView⟩ := by
  obtain ⟨hsrcView, hdstView⟩ := zimgFrameViewsInit_eq hviews
  have hinv := h.inv
  obtain ⟨sa, da, hplan⟩ := hinv.plan
  have hpos : 1 ≤ r.priv.plan.nRows ∧ 1 ≤ r.priv.plan.nCols := by
    have hf := resolveIoPlan_feasible (zimgBuildIoReq ctx workerBudget sa da)
    rw [hplan]
    exact ⟨hf.rows_pos, hf.cols_pos⟩
  have hthreads : r.priv.plan.nThreads = r.priv.plan.nRows * r.priv.plan.nCols := by
    rw [hplan]
    rfl
  obtain ⟨hn, hcells⟩ := hinv.ready h.started
  have hcount : r.priv.pool.nWorkers = r.priv.plan.nRows.toNat * r.priv.plan.nCols.toNat := by
    zify
    rw [hn, hthreads, Int.toNat_of_nonneg (by omega), Int.toNat_of_nonneg (by omega)]
  have hbounds : ∀ i : ℕ, i < r.priv.pool.nWorkers →
      zimgCellBounds r.priv.plan r.priv.geom i =
        some (gridCell r.priv.plan r.priv.geom i) := by
    intro i hi
    have heq := zimgCellBounds_eq workerBudget sa da hctx (i := i) (by omega)
      (by rw [← hplan]; omega)
    rwa [← hplan, ← hinv.geom] at heq
  have hready : ∀ i < r.priv.pool.nWorkers,
      CellReady r.priv (gridCell r.priv.plan r.priv.geom i) (r.priv.workers i) := by
    intro i hi
    obtain ⟨c, hc, hcell⟩ := hcells i hi
    rw [hbounds i hi] at hc
    rwa [Option.some.inj hc]
  have hgrid : PlannedGrid ctx r.priv.subW r.priv.subH r.priv.yv12SwapUv r.priv.plan :=
    ⟨hctx, hinv.chroma, hpos.1, hpos.2⟩
  refine ⟨hgrid, hinv.geom, hinv.algo, hcount, fun ht => ?_, fun ht => ?_, fun b q => ?_, hbounds,
    hready, h.pointed⟩
  · have hcols : r.priv.plan.colTiled = decide (r.priv.plan.nCols > 1) := by
      rw [hplan]
      rfl
    have := of_decide_eq_false (hcols.symm.trans ht)
    change r.priv.plan.nCols = 1
    omega
  · rw [hplan] at ht ⊢
    exact resolveIoPlan_colTiled ht
  -- every buffer takes a row of what the frame keeps in it
  obtain ⟨hsubW, -, -⟩ := chromaToZimg_spec hinv.chroma
  have htarget := hctx.target
  have halign := fun i : ℕ => gridCell_aligned hctx hinv.chroma r.priv.plan i
  unfold ZimgFrame.cols ZimgFrame.size ZimgFrame.cell
  simp only [hinv.geom] at hready ⊢
  cases b with
  | srcPicture => exact le_picturePlanes hinv.chroma hsrcView q
  | dstPicture => exact le_picturePlanes hinv.chroma hdstView q
  | srcScratch =>
    simp only
    split
    · simp
    · simp only [ZimgFrame.view, planeBufferView, hinv.srcLayout]
      exact le_initPlaneLayout q htarget.srcW_le hsubW (halign 0).srcFullW
  | dstScratch =>
    simp only
    split
    · simp
    · simp only [ZimgFrame.view, planeBufferView, hinv.dstLayout]
      exact le_initPlaneLayout q htarget.width_le hsubW
        (two_pow_dvd_of_even hsubW fun _ => htarget.width_even)
  | tile i =>
    simp only
    split
    · rename_i htile
      simp only [ZimgFrame.view, planeBufferView, (hready i htile.2).tileLayout htile.1]
      exact le_initPlaneLayout q ((hgrid.dstWidth_le i).trans htarget.width_le) hsubW
        (halign i).dstWidth
    · simp

end Ready

/-! ### Who owns a byte -/

section Ownership

variable {ctx : ScalerCtx} {f : ZimgFrame} (h : FrameReady ctx f)
include h

/-- A byte a frame writes has its own address. -/
theorem FrameReady.addr_inj (hapart : f.Apart) {l l' : FrameByte} (hl : f.InUse l)
    (hl' : f.InUse l') (hwritten : l.buffer ≠ .srcPicture) (heq : f.addr l = f.addr l') :
    l = l' := by
  obtain ⟨b, q, y, x⟩ := l
  obtain ⟨b', q', y', x'⟩ := l'
  by_cases hplane : (b, q) = (b', q')
  · obtain ⟨rfl, rfl⟩ := Prod.mk.inj hplane
    obtain ⟨rfl, rfl⟩ := PlaneMemory.addr_inj (hl.2.trans_le (h.pitch b q))
      (hl'.2.trans_le (h.pitch b q)) heq
    rfl
  · have hmem : f.addr ⟨b, q, y, x⟩ ∈ f.bytes b q := addr_mem_rect hl.2 hl.1
    have hmem' : f.addr ⟨b', q', y', x'⟩ ∈ f.bytes b' q' := addr_mem_rect hl'.2 hl'.1
    rw [heq] at hmem
    exact absurd hmem' (Set.disjoint_left.mp (hapart b q b' q' hwritten hplane) hmem)

theorem FrameReady.cell_eq (i : ℕ) : f.cell i = gridCell f.priv.plan ctx.geom i := by
  rw [ZimgFrame.cell, h.geom]

/-- A copy-in grid has no column tiles. -/
theorem FrameReady.copyIn_rowsOnly (hz : f.priv.plan.srcZerocopy = false) :
    f.priv.plan.nCols = 1 := by
  refine h.rowsOnly (Bool.eq_false_iff.mpr fun ht => ?_)
  exact absurd (hz.symm.trans (h.tiledModes ht).1) (by decide)

theorem FrameReady.srcRect_unique (hz : f.priv.plan.srcZerocopy = false) {i j : ℕ}
    (hi : i < f.priv.pool.nWorkers) (hj : j < f.priv.pool.nWorkers) {q : Plane} {y x : ℕ}
    (hic : (f.srcRect i q).Holds y x) (hjc : (f.srcRect j q).Holds y x) : i = j := by
  unfold ZimgFrame.srcRect at hic hjc
  rw [h.cell_eq, h.geom] at hic hjc
  exact h.grid.srcRect_unique (h.copyIn_rowsOnly hz) (h.count ▸ hi) (h.count ▸ hj) hic hjc

theorem FrameReady.dstRect_unique {i j : ℕ}
    (hi : i < f.priv.pool.nWorkers) (hj : j < f.priv.pool.nWorkers) {q : Plane} {y x : ℕ}
    (hic : (f.dstRect i q).Holds y x) (hjc : (f.dstRect j q).Holds y x) : i = j := by
  unfold ZimgFrame.dstRect at hic hjc
  rw [h.cell_eq] at hic hjc
  exact h.grid.dstRect_unique (h.count ▸ hi) (h.count ▸ hj) hic hjc

/-- **No byte has two owners.** -/
theorem FrameReady.owner_unique {i j : ℕ} (hi : i < f.priv.pool.nWorkers)
    (hj : j < f.priv.pool.nWorkers) {l : FrameByte} (huse : f.InUse l) (hio : f.Owns i l)
    (hjo : f.Owns j l) : i = j := by
  obtain ⟨b, q, y, x⟩ := l
  cases b with
  | srcPicture => exact hio.elim
  | dstPicture => exact h.dstRect_unique hi hj hio hjo
  | srcScratch =>
    refine h.srcRect_unique (Bool.eq_false_iff.mpr fun hz => ?_) hi hj hio hjo
    have hempty := huse.1
    simp [ZimgFrame.rows, ZimgFrame.size, hz] at hempty
  | dstScratch => exact h.dstRect_unique hi hj hio hjo
  | tile k => exact Eq.trans (Eq.symm hio) hjo

/-- What one cell may write no other cell touches. -/
theorem FrameReady.owned_apart (hapart : f.Apart) {i j : ℕ} (hi : i < f.priv.pool.nWorkers)
    (hj : j < f.priv.pool.nWorkers) (hij : i ≠ j) :
    Disjoint (f.owned i) (f.touched j ∪ f.owned j) := by
  have hwritten : ∀ {l}, f.Owns i l → l.buffer ≠ .srcPicture := fun {l} hl heq => by
    rw [ZimgFrame.Owns, heq] at hl
    exact hl
  rw [Set.disjoint_left]
  rintro a ⟨l, ⟨hl, hio⟩, rfl⟩ (⟨l', ⟨hl', hread⟩, heq⟩ | ⟨l', ⟨hl', hjo⟩, heq⟩)
  · obtain rfl := h.addr_inj hapart hl hl' (hwritten hio) heq.symm
    exact hij (h.owner_unique hi hj hl hio (hread.resolve_left (hwritten hio)))
  · obtain rfl := h.addr_inj hapart hl hl' (hwritten hio) heq.symm
    exact hij (h.owner_unique hi hj hl hio hjo)

end Ownership

/-! ### The rectangles a cell works on -/

/-- Byte `k` (plane, row, column) of a rectangle of each plane of buffer `b`. -/
def FrameByte.ofRect (b : FrameBuffer) (r : Plane → PlaneRect) (k : Plane × ℕ × ℕ) : FrameByte :=
  ⟨b, k.1, (r k.1).top + k.2.1, (r k.1).left + k.2.2⟩

def rectDom (r : Plane → PlaneRect) : Set (Plane × ℕ × ℕ) :=
  {k | k.2.1 < (r k.1).rows ∧ k.2.2 < (r k.1).cols}

namespace ZimgFrame

variable (f : ZimgFrame)

def rectAddr (b : FrameBuffer) (r : Plane → PlaneRect) (k : Plane × ℕ × ℕ) : ℕ :=
  f.addr (.ofRect b r k)

def Fits (b : FrameBuffer) (r : Plane → PlaneRect) : Prop := ∀ q,
  (r q).top + (r q).rows ≤ f.rows b q ∧ (r q).left + (r q).cols ≤ f.cols b q

/-- The buffer that the graphs read. -/
def inBuffer : FrameBuffer := if f.priv.plan.srcZerocopy then .srcPicture else .srcScratch

/-- The buffer that the graph of cell `i` writes. -/
def outBuffer (i : ℕ) : FrameBuffer :=
  if f.priv.plan.colTiled then .tile i
  else if f.priv.plan.dstZerocopy then .dstPicture else .dstScratch

/-- The rectangle that the graph of cell `i` writes: a tile starts at the origin
of its own scratch. -/
def outRect (i : ℕ) (q : Plane) : PlaneRect :=
  if f.priv.plan.colTiled then { f.dstRect i q with top := 0, left := 0 } else f.dstRect i q

variable {f} {b : FrameBuffer} {r : Plane → PlaneRect} {k : Plane × ℕ × ℕ}

theorem Fits.inUse (h : f.Fits b r) (hk : k ∈ rectDom r) : f.InUse (.ofRect b r k) := by
  obtain ⟨hrow, hcol⟩ := h k.1
  exact ⟨(Nat.add_lt_add_left hk.1 _).trans_le hrow, (Nat.add_lt_add_left hk.2 _).trans_le hcol⟩

theorem rectDom_outRect (i : ℕ) : rectDom (f.outRect i) = rectDom (f.dstRect i) := by
  unfold rectDom outRect
  ext k
  split <;> rfl

end ZimgFrame

section Rects

variable {ctx : ScalerCtx} {f : ZimgFrame} (h : FrameReady ctx f)
include h

theorem FrameReady.src_fits {i : ℕ} (hi : i < f.priv.pool.nWorkers) :
    f.Fits .srcPicture (f.srcRect i) := by
  intro q
  have hwithin := h.grid.srcRect_within (h.count ▸ hi) q
  unfold ZimgFrame.srcRect
  rw [h.cell_eq, h.geom]
  simpa [ZimgFrame.rows, ZimgFrame.cols, ZimgFrame.size, h.geom, ScalerCtx.geom] using hwithin

theorem FrameReady.in_fits {i : ℕ} (hi : i < f.priv.pool.nWorkers) :
    f.Fits f.inBuffer (f.srcRect i) := by
  intro q
  have hsrc := h.src_fits hi q
  unfold ZimgFrame.inBuffer
  split
  · exact hsrc
  · rename_i hz
    simpa [ZimgFrame.rows, ZimgFrame.cols, ZimgFrame.size, hz] using hsrc

theorem FrameReady.dst_fits {i : ℕ} (hi : i < f.priv.pool.nWorkers) :
    f.Fits .dstPicture (f.dstRect i) := by
  intro q
  have hwithin := h.grid.dstRect_within (h.count ▸ hi) q
  unfold ZimgFrame.dstRect
  rw [h.cell_eq]
  simpa [ZimgFrame.rows, ZimgFrame.cols, ZimgFrame.size, h.geom, ScalerCtx.geom] using hwithin

theorem FrameReady.out_fits {i : ℕ} (hi : i < f.priv.pool.nWorkers) :
    f.Fits (f.outBuffer i) (f.outRect i) := by
  intro q
  have hdst := h.dst_fits hi q
  unfold ZimgFrame.outBuffer ZimgFrame.outRect
  split
  · rename_i ht
    simp [ZimgFrame.rows, ZimgFrame.cols, ZimgFrame.size, ht, hi, ZimgFrame.dstRect,
      CellBounds.dstRect]
  split
  · exact hdst
  · rename_i ht hz
    simpa [ZimgFrame.rows, ZimgFrame.cols, ZimgFrame.size, ht, hz] using hdst

/-- The addresses of a rectangle are all different. -/
theorem FrameReady.rectAddr_inj (hapart : f.Apart) {b b' : FrameBuffer}
    {r r' : Plane → PlaneRect} (hb : b ≠ .srcPicture) (hr : f.Fits b r) (hr' : f.Fits b' r')
    {k k' : Plane × ℕ × ℕ} (hk : k ∈ rectDom r) (hk' : k' ∈ rectDom r')
    (heq : f.rectAddr b r k = f.rectAddr b' r' k') : b = b' ∧ (r = r' → k = k') := by
  have hbyte := h.addr_inj hapart (hr.inUse hk) (hr'.inUse hk') hb heq
  obtain ⟨q, y, x⟩ := k
  obtain ⟨q', y', x'⟩ := k'
  simp only [FrameByte.ofRect, FrameByte.mk.injEq] at hbyte
  obtain ⟨hbuffer, rfl, hrow, hcol⟩ := hbyte
  refine ⟨hbuffer, fun heq => ?_⟩
  subst heq
  rw [Nat.add_left_cancel hrow, Nat.add_left_cancel hcol]

end Rects

/-! ### The copies of a cell -/

/-- Position `v` on plane `q`. -/
def planePos (q : Plane) (sub : ℕ) (v : ℤ) : ℤ :=
  match q with
  | .y => v
  | _ => v >>> sub

/-- Extent `v` on plane `q`, as a copy takes it. -/
def planeDim (q : Plane) (sub : ℕ) (v : ℤ) : ℤ :=
  match q with
  | .y => v
  | _ => chromaDim v sub

theorem planePos_eq {q : Plane} {sub : ℕ} {v : ℤ} (hv : 0 ≤ v) :
    planePos q sub v = q.extent sub v := by
  cases q with
  | y => simp [planePos, Plane.cast_extent hv, Plane.shift]
  | u => exact Plane.shiftRight_eq_extent hv (by decide)
  | v => exact Plane.shiftRight_eq_extent hv (by decide)

theorem planeDim_eq {q : Plane} {sub : ℕ} {v : ℤ} (hv : 0 ≤ v) (hsub : sub ≤ 1)
    (hdvd : (2 : ℤ) ^ sub ∣ v) : planeDim q sub v = q.extent sub v := by
  cases q with
  | y => simp [planeDim, Plane.cast_extent hv, Plane.shift]
  | u => exact chromaDim_eq_extent (by decide) hsub hdvd
  | v => exact chromaDim_eq_extent (by decide) hsub hdvd

theorem StripeWorker.srcOffs_eq (w : StripeWorker) (q : Plane) :
    w.srcOffs q = planePos q w.cell.subH w.cell.srcYStart := by
  cases q <;> rfl

theorem StripeWorker.dstOffs_eq (w : StripeWorker) (q : Plane) :
    w.dstOffs q = if w.colTiled then 0 else planePos q w.cell.subH w.cell.dstYStart := by
  cases q <;> rfl

/-- What `worker_copy_in_stripe` copies of one plane. -/
def copyInPlane (w : StripeWorker) (q : Plane) : List Memcpy :=
  copyPlaneSteps (w.src.rowAddr q (planePos q w.cell.subH w.cell.srcYStart)) (w.src.pitch q)
    (w.vlcSrc.rowAddr q (planePos q w.cell.subH w.cell.srcYStart)) (w.vlcSrc.pitch q)
    (planeDim q w.cell.subW w.cell.srcW)
    (planePos q w.cell.subH w.cell.srcYEnd - planePos q w.cell.subH w.cell.srcYStart)

/-- What `worker_copy_out_stripe` copies of one plane. -/
def copyOutStripePlane (w : StripeWorker) (q : Plane) : List Memcpy :=
  copyPlaneSteps (w.vlcDst.rowAddr q (planePos q w.cell.subH w.cell.dstYStart)) (w.vlcDst.pitch q)
    (w.dst.rowAddr q (planePos q w.cell.subH w.cell.dstYStart)) (w.dst.pitch q)
    (planeDim q w.cell.subW w.cell.dstW)
    (planePos q w.cell.subH w.cell.dstYEnd - planePos q w.cell.subH w.cell.dstYStart)

/-- What `worker_copy_out_tile` copies of one plane. -/
def copyOutTilePlane (w : StripeWorker) (q : Plane) : List Memcpy :=
  copyPlaneSteps
    (w.vlcDst.rowAddr q (planePos q w.cell.subH w.cell.dstYStart) +
      (planePos q w.cell.subW w.cell.dstXStart).toNat) (w.vlcDst.pitch q)
    (w.dst.data q) (w.dst.pitch q) (planeDim q w.cell.subW w.cell.dstW)
    (planePos q w.cell.subH w.cell.dstYEnd - planePos q w.cell.subH w.cell.dstYStart)

theorem workerCopyInStripe_eq (w : StripeWorker) :
    workerCopyInStripe w = [Plane.y, .u, .v].flatMap (copyInPlane w) := rfl

theorem workerCopyOutStripe_eq (w : StripeWorker) :
    workerCopyOutStripe w = [Plane.y, .u, .v].flatMap (copyOutStripePlane w) := rfl

theorem workerCopyOutTile_eq (w : StripeWorker) :
    workerCopyOutTile w = [Plane.y, .u, .v].flatMap (copyOutTilePlane w) := rfl

section Copies

variable {ctx : ScalerCtx} {f : ZimgFrame} (h : FrameReady ctx f)
include h

/-- Copies from one rectangle to another of the same size. -/
theorem FrameReady.copyPlanes_moves (hapart : f.Apart) {b b' : FrameBuffer}
    {r r' : Plane → PlaneRect} (hb : b ≠ .srcPicture) (hr : f.Fits b r) (hr' : f.Fits b' r')
    {dst src : Plane → ℕ} {w l : Plane → ℤ}
    (hdst : ∀ q, dst q = PlaneMemory.addr ((f.view b).data q) ((f.view b).pitch q).toNat
      (r q).top (r q).left)
    (hsrc : ∀ q, src q = PlaneMemory.addr ((f.view b').data q) ((f.view b').pitch q).toNat
      (r' q).top (r' q).left)
    (hw : ∀ q, w q = (r q).cols) (hl : ∀ q, l q = (r q).rows)
    (hcols : ∀ q, (r' q).cols = (r q).cols) :
    Moves ([Plane.y, .u, .v].flatMap fun q => copyPlaneSteps (dst q) ((f.view b).pitch q) (src q)
        ((f.view b').pitch q) (w q) (l q)) (rectDom r)
      (f.rectAddr b r) (f.rectAddr b' r') := by
  have hplane : ∀ q ∈ [Plane.y, .u, .v], Moves
      (copyPlaneSteps (dst q) ((f.view b).pitch q) (src q) ((f.view b').pitch q) (w q) (l q))
      (rectangle (r q).cols (r q).rows) (fun i => f.rectAddr b r (q, i))
      (fun i => f.rectAddr b' r' (q, i)) := by
    intro q _
    have hd := (Nat.le_add_left _ _).trans ((hr q).2.trans (h.pitch b q))
    have hs := (Nat.le_add_left _ _).trans ((hr' q).2.trans (h.pitch b' q))
    rw [hcols] at hs
    have hmoves := copyPlaneSteps_moves (dst q) (src q) (r q).rows hd hs
    rw [← hw, ← hl] at hmoves
    simp only [hdst, hsrc, addr_addr] at hmoves ⊢
    exact hmoves
  -- two planes of a rectangle have no address in common
  have hall := Moves.flatMap (by decide) hplane fun q _ q' _ hne i hi j hj heq => by
    have hk := (h.rectAddr_inj hapart hb hr hr (show (q, i) ∈ rectDom r from hi)
      (show (q', j) ∈ rectDom r from hj) heq).2 rfl
    exact hne (congrArg Prod.fst hk)
  have hdom : rectDom r = {k | k.1 ∈ [Plane.y, .u, .v] ∧
      k.2 ∈ rectangle (r k.1).cols (r k.1).rows} := by
    ext ⟨q, i⟩
    cases q <;> simp [rectDom, rectangle]
  rw [hdom]
  exact hall

end Copies

/-! ### One cell -/

/-- The buffers of a zimg image, row offsets included. -/
theorem setBufPlanes_addr (view : PlaneView) {offs : Plane → ℤ} {top : Plane → ℕ}
    (h : ∀ q, offs q = top q) (q : Plane) (y x : ℕ) : (setBufPlanes view offs).addr q y x =
      PlaneMemory.addr (view.data q) (view.pitch q).toNat (top q + y) x := by
  simp only [ImageBuffer.addr, setBufPlanes, h, Int.toNat_natCast, PlaneMemory.addr]
  ring

theorem rowAddr_planePos (view : PlaneView) (q : Plane) (sub : ℕ) {v : ℤ} (hv : 0 ≤ v) :
    view.rowAddr q (planePos q sub v) =
      PlaneMemory.addr (view.data q) (view.pitch q).toNat (q.extent sub v) 0 := by
  rw [PlaneView.rowAddr, planePos_eq hv, Int.toNat_natCast]
  rfl

theorem planePos_sub {q : Plane} {sub : ℕ} {a b : ℤ} (ha : 0 ≤ a) (hab : a ≤ b)
    (hdvd : (2 : ℤ) ^ sub ∣ a) :
    planePos q sub b - planePos q sub a = q.extent sub (b - a) := by
  rw [planePos_eq ha, planePos_eq (ha.trans hab), Plane.cast_extent_sub ha hab hdvd]

section Cell

variable {ctx : ScalerCtx} {f : ZimgFrame} (h : FrameReady ctx f) {i : ℕ}
  (hi : i < f.priv.pool.nWorkers)
include h hi

theorem FrameReady.src_view : (f.priv.workers i).src = f.view f.inBuffer := by
  unfold ZimgFrame.inBuffer
  split
  · rename_i hz
    exact (h.pointed i hi).src hz
  · rename_i hz
    exact (h.ready i hi).src (Bool.not_eq_true _ ▸ hz)

theorem FrameReady.dst_view : (f.priv.workers i).dst = f.view (f.outBuffer i) := by
  unfold ZimgFrame.outBuffer
  split
  · rename_i ht
    exact (h.ready i hi).tile ht
  rename_i ht
  split
  · rename_i hz
    exact (h.pointed i hi).dst hz
  · rename_i hz
    exact (h.ready i hi).dst (Bool.not_eq_true _ ▸ ht) (Bool.not_eq_true _ ▸ hz)

/-- The worker keeps the shifts of the chroma. -/
theorem FrameReady.cell_subs : (f.priv.workers i).cell.subW = f.priv.subW ∧
    (f.priv.workers i).cell.subH = f.priv.subH := by
  obtain ⟨hw, hh, -⟩ := chromaToZimg_spec h.grid.chroma
  rw [(h.ready i hi).cell]
  exact ⟨if_pos (by omega), if_pos (by omega)⟩

theorem FrameReady.rows_ordered : (f.cell i).rows.Ordered := by
  rw [h.cell_eq]
  exact h.grid.rows_ordered (h.count ▸ hi)

omit hi in
theorem FrameReady.cell_aligned (i : ℕ) :
    CellAligned f.priv.subW f.priv.subH ctx (f.cell i) := by
  rw [h.cell_eq]
  exact gridCell_aligned h.grid.planned h.grid.chroma _ _

omit hi in
theorem FrameReady.cols_ordered (i : ℕ) : (f.cell i).cols.Ordered := by
  rw [h.cell_eq]
  exact h.grid.cols_ordered i

/-- Where a graph finds the bytes of its source. -/
theorem FrameReady.sb_addr (k : Plane × ℕ × ℕ) :
    (f.priv.workers i).sb.addr k.1 k.2.1 k.2.2 = f.rectAddr f.inBuffer (f.srcRect i) k := by
  have hoffs : ∀ q, (f.priv.workers i).srcOffs q = (f.srcRect i q).top := by
    intro q
    rw [StripeWorker.srcOffs_eq, (h.cell_subs hi).2, (h.ready i hi).cell]
    exact planePos_eq (h.rows_ordered hi).srcStart
  rw [StripeWorker.sb, setBufPlanes_addr _ hoffs, h.src_view hi]
  simp [ZimgFrame.rectAddr, ZimgFrame.addr, FrameByte.ofRect, ZimgFrame.srcRect,
    CellBounds.srcRect]

/-- Where a graph puts the bytes of its destination. -/
theorem FrameReady.db_addr (k : Plane × ℕ × ℕ) :
    (f.priv.workers i).db.addr k.1 k.2.1 k.2.2 =
      f.rectAddr (f.outBuffer i) (f.outRect i) k := by
  have hoffs : ∀ q, (f.priv.workers i).dstOffs q = (f.outRect i q).top := by
    intro q
    rw [StripeWorker.dstOffs_eq, (h.cell_subs hi).2, (h.ready i hi).cell, (h.ready i hi).colTiled,
      ZimgFrame.outRect]
    split
    · rfl
    · exact planePos_eq (h.rows_ordered hi).dstStart
  have hleft : ∀ q, (f.outRect i q).left = 0 := by
    intro q
    unfold ZimgFrame.outRect
    split
    · rfl
    · rename_i ht
      rw [ZimgFrame.dstRect, CellBounds.dstRect, ZimgFrame.cell,
        gridCell_cols_of_rows_only (h.rowsOnly (Bool.not_eq_true _ ▸ ht)), Plane.extent_zero]
  rw [StripeWorker.db, setBufPlanes_addr _ hoffs, h.dst_view hi]
  simp [ZimgFrame.rectAddr, ZimgFrame.addr, FrameByte.ofRect, hleft]

/-- Copy-in fills the source rows of the cell. -/
theorem FrameReady.copyIn_moves (hapart : f.Apart) (hz : f.priv.plan.srcZerocopy = false) :
    Moves (workerCopyInStripe (f.priv.workers i)) (rectDom (f.srcRect i))
      (f.rectAddr f.inBuffer (f.srcRect i)) (f.rectAddr .srcPicture (f.srcRect i)) := by
  have hvlc : (f.priv.workers i).vlcSrc = f.view .srcPicture := (h.pointed i hi).vlcSrc hz
  have hin : f.inBuffer ≠ .srcPicture := by
    rw [ZimgFrame.inBuffer, hz]
    decide
  have hord := h.rows_ordered hi
  have halign := h.cell_aligned i
  have hsubW := (chromaToZimg_spec h.grid.chroma).1
  have hcols : (f.cell i).cols = ⟨0, f.priv.geom.srcW, 0, f.priv.geom.dstW⟩ :=
    gridCell_cols_of_rows_only (h.copyIn_rowsOnly hz) _ _
  obtain ⟨hw, hh⟩ := h.cell_subs hi
  rw [workerCopyInStripe_eq]
  unfold copyInPlane
  rw [h.src_view hi, hvlc, hw, hh, (h.ready i hi).cell]
  refine h.copyPlanes_moves hapart hin (h.in_fits hi) (h.src_fits hi)
    (fun q => rowAddr_planePos _ q _ hord.srcStart) (fun q => rowAddr_planePos _ q _ hord.srcStart)
    (fun q => ?_) (fun q => planePos_sub hord.srcStart hord.src halign.srcTop) fun q => rfl
  simp only [workerCellGeom, hcols, sub_zero]
  refine planeDim_eq ?_ hsubW ?_
  · rw [h.geom]
    exact h.grid.planned.target.srcW_pos.le
  · rw [h.geom]
    exact halign.srcFullW

/-- Copy-out empties the graph's rectangle into the picture. -/
theorem FrameReady.emit_moves (hapart : f.Apart) (hz : f.priv.plan.dstZerocopy = false) :
    Moves (workerEmitOutput (f.priv.workers i) 0) (rectDom (f.dstRect i))
      (f.rectAddr .dstPicture (f.dstRect i)) (f.rectAddr (f.outBuffer i) (f.outRect i)) := by
  have hvlc : (f.priv.workers i).vlcDst = f.view .dstPicture := (h.pointed i hi).vlcDst hz
  have hord := h.rows_ordered hi
  have hcord := h.cols_ordered i
  have halign := h.cell_aligned i
  have hsubW := (chromaToZimg_spec h.grid.chroma).1
  obtain ⟨hw, hh⟩ := h.cell_subs hi
  have hcopyOut : (f.priv.workers i).copyOut = true := by rw [(h.ready i hi).copyOut, hz]; rfl
  have hdim : ∀ q, planeDim q f.priv.subW ((f.cell i).cols.dstEnd - (f.cell i).cols.dstStart) =
      (f.dstRect i q).cols := fun q =>
    planeDim_eq (sub_nonneg.mpr hcord.dst) hsubW halign.dstWidth
  have hlen : ∀ q, planePos q f.priv.subH (f.cell i).rows.dstEnd -
      planePos q f.priv.subH (f.cell i).rows.dstStart = (f.dstRect i q).rows := fun q =>
    planePos_sub hord.dstStart hord.dst halign.dstTop
  have hsame : ∀ q, (f.outRect i q).cols = (f.dstRect i q).cols := by
    intro q
    unfold ZimgFrame.outRect
    split <;> rfl
  unfold workerEmitOutput
  rw [if_neg (by decide), (h.ready i hi).colTiled]
  by_cases ht : f.priv.plan.colTiled = true
  · -- a tile goes to its place in the picture
    rw [if_pos ht, workerCopyOutTile_eq]
    unfold copyOutTilePlane
    rw [h.dst_view hi, hvlc, hw, hh, (h.ready i hi).cell]
    refine h.copyPlanes_moves hapart (by decide) (h.dst_fits hi) (h.out_fits hi)
      (fun q => ?_) (fun q => ?_) hdim hlen hsame
    · simp only [workerCellGeom]
      rw [rowAddr_planePos _ q _ hord.dstStart, planePos_eq hcord.dstStart, Int.toNat_natCast]
      rfl
    · simp [ZimgFrame.outRect, ht, PlaneMemory.addr]
  · -- a stripe of full rows
    have hone := h.rowsOnly (Bool.not_eq_true _ ▸ ht)
    have hleft : ∀ q, (f.dstRect i q).left = 0 := by
      intro q
      rw [ZimgFrame.dstRect, CellBounds.dstRect, ZimgFrame.cell, gridCell_cols_of_rows_only hone,
        Plane.extent_zero]
    have hout : f.outRect i = f.dstRect i := by
      funext q
      rw [ZimgFrame.outRect, if_neg ht]
    rw [if_neg ht, if_pos hcopyOut, workerCopyOutStripe_eq]
    unfold copyOutStripePlane
    rw [h.dst_view hi, hvlc, hw, hh, (h.ready i hi).cell]
    refine h.copyPlanes_moves hapart (by decide) (h.dst_fits hi) (h.out_fits hi)
      (fun q => ?_) (fun q => ?_) hdim hlen hsame
    · rw [hleft]
      exact rowAddr_planePos _ q _ hord.dstStart
    · rw [hout, hleft]
      exact rowAddr_planePos _ q _ hord.dstStart

/-- With destination zero-copy the graph writes into the picture. -/
theorem FrameReady.emit_nil (hz : f.priv.plan.dstZerocopy = true) :
    workerEmitOutput (f.priv.workers i) 0 = [] ∧
      f.rectAddr (f.outBuffer i) (f.outRect i) = f.rectAddr .dstPicture (f.dstRect i) := by
  have ht : f.priv.plan.colTiled = false := Bool.eq_false_iff.mpr fun ht =>
    absurd (hz.symm.trans (h.tiledModes ht).2) (by decide)
  constructor
  · simp [workerEmitOutput, (h.ready i hi).copyOut, (h.ready i hi).colTiled, hz, ht]
  · have hrect : f.outRect i = f.dstRect i := by
      funext q
      rw [ZimgFrame.outRect, if_neg (by simp [ht])]
    rw [hrect, ZimgFrame.outBuffer, if_neg (by simp [ht]), if_pos hz]

end Cell

/-! ### What a cell does, alone -/

/-- The image that a memory shows in a rectangle of each plane of a view. -/
def sourceImage (m : Memory) (view : PlaneView) (r : Plane → PlaneRect) : Image := fun q y x =>
  if y < (r q).rows ∧ x < (r q).cols then
    m (PlaneMemory.addr (view.data q) (view.pitch q).toNat ((r q).top + y) ((r q).left + x))
  else 0

/-- The graph of cell `i`. -/
def ZimgFrame.graph (f : ZimgFrame) (i : ℕ) : ZimgGraph :=
  buildStripeGraph f.priv.geom.srcW (f.cell i) f.priv.subW f.priv.subH f.priv.algo

/-- The copy-in of cell `i`. -/
def ZimgFrame.copyIn (f : ZimgFrame) (i : ℕ) : List Memcpy :=
  if f.priv.plan.srcZerocopy then [] else workerCopyInStripe (f.priv.workers i)

/-- The run of cell `i` when its graph succeeds. -/
def ZimgFrame.cellSteps (f : ZimgFrame) (lib : ZimgLib) (i : ℕ) : List CellStep :=
  (f.copyIn i).map .copy ++
    filterGraphProcess lib (f.graph i) (f.priv.workers i).sb (f.priv.workers i).db 0 ++
    (workerEmitOutput (f.priv.workers i) 0).map .copy

/-- The addresses of a rectangle of each plane. -/
def ZimgFrame.rectSet (f : ZimgFrame) (b : FrameBuffer) (r : Plane → PlaneRect) : Set ℕ :=
  f.rectAddr b r '' rectDom r

theorem solo_copies (lib : ZimgLib) (cs : List Memcpy) (m : Memory) :
    solo (CellStep.run lib) (cs.map .copy) m = solo Memcpy.run cs m := by
  unfold solo
  rw [List.foldl_map]
  rfl

section Alone

variable {ctx : ScalerCtx} {f : ZimgFrame} (h : FrameReady ctx f) {i : ℕ}
  (hi : i < f.priv.pool.nWorkers)
include h hi

theorem FrameReady.cellRun_eq (lib : ZimgLib) {rc : ℕ → ℤ} (hrc : rc i = 0) :
    f.priv.cellRun lib rc i = f.cellSteps lib i := by
  have hcopy : (f.priv.workers i).copyIn = !f.priv.plan.srcZerocopy := (h.ready i hi).copyIn
  rw [ZimgPriv.cellRun, (h.ready i hi).graph]
  simp only [zimgWorkerRun, hrc, hcopy, if_true, ZimgFrame.cellSteps, ZimgFrame.copyIn]
  cases f.priv.plan.srcZerocopy <;> rfl

theorem FrameReady.readImage_eq (m : Memory) :
    readImage m (f.priv.workers i).sb (f.graph i).srcFmt =
      sourceImage m (f.view f.inBuffer) (f.srcRect i) := by
  funext q y x
  rw [readImage, h.sb_addr hi (q, y, x)]
  rfl

omit h hi in
/-- A byte the graph writes is a byte of its rectangle. -/
theorem ZimgFrame.graph_writes_within (f : ZimgFrame) (lib : ZimgLib) {i : ℕ} {q : Plane} {y x : ℕ}
    (hk : (q, y, x) ∈ lib.writes (f.graph i) 0) : (q, y, x) ∈ rectDom (f.outRect i) := by
  rw [ZimgFrame.rectDom_outRect]
  exact lib.writes_within _ _ _ _ _ hk

omit h hi in
theorem ZimgFrame.rectSet_owned (f : ZimgFrame) {i : ℕ} {b : FrameBuffer}
    {r : Plane → PlaneRect} (hr : f.Fits b r)
    (how : ∀ k ∈ rectDom r, f.Owns i (.ofRect b r k)) : f.rectSet b r ⊆ f.owned i := by
  rintro - ⟨k, hk, rfl⟩
  exact ⟨_, ⟨hr.inUse hk, how k hk⟩, rfl⟩

theorem FrameReady.dst_owned : f.rectSet .dstPicture (f.dstRect i) ⊆ f.owned i :=
  f.rectSet_owned (h.dst_fits hi) fun _ hk => PlaneRect.holds_add hk.1 hk.2

theorem FrameReady.out_owned : f.rectSet (f.outBuffer i) (f.outRect i) ⊆ f.owned i := by
  refine f.rectSet_owned (h.out_fits hi) fun k hk => ?_
  unfold ZimgFrame.outBuffer ZimgFrame.outRect
  rw [ZimgFrame.rectDom_outRect] at hk
  by_cases ht : f.priv.plan.colTiled = true
  · simp [ht, FrameByte.ofRect, ZimgFrame.Owns]
  by_cases hz : f.priv.plan.dstZerocopy = true
  · simp only [ht, hz, if_true]
    exact PlaneRect.holds_add hk.1 hk.2
  · simp only [ht, hz]
    exact PlaneRect.holds_add hk.1 hk.2

theorem FrameReady.in_owned (hz : f.priv.plan.srcZerocopy = false) :
    f.rectSet f.inBuffer (f.srcRect i) ⊆ f.owned i := by
  refine f.rectSet_owned (h.in_fits hi) fun k hk => ?_
  simp only [ZimgFrame.inBuffer, hz]
  exact PlaneRect.holds_add hk.1 hk.2

omit h hi in
theorem ZimgFrame.owned_touched : f.owned i ⊆ f.touched i := by
  rintro - ⟨l, ⟨huse, how⟩, rfl⟩
  exact ⟨l, ⟨huse, .inr how⟩, rfl⟩

theorem FrameReady.src_touched : f.rectSet .srcPicture (f.srcRect i) ⊆ f.touched i := by
  rintro - ⟨k, hk, rfl⟩
  exact ⟨_, ⟨(h.src_fits hi).inUse hk, .inl rfl⟩, rfl⟩

theorem FrameReady.in_touched : f.rectSet f.inBuffer (f.srcRect i) ⊆ f.touched i := by
  by_cases hz : f.priv.plan.srcZerocopy = true
  · rw [ZimgFrame.inBuffer, if_pos hz]
    exact h.src_touched hi
  · exact (h.in_owned hi (Bool.not_eq_true _ ▸ hz)).trans ZimgFrame.owned_touched

/-- **A cell stays within its own addresses.** -/
theorem FrameReady.cellSteps_confined (hapart : f.Apart) (lib : ZimgLib) {act : CellStep}
    (hact : act ∈ f.cellSteps lib i) : Confined (act.run lib) (f.touched i) (f.owned i) ∧
      act.writes ⊆ f.owned i := by
  have hcopy : ∀ {cs : List Memcpy} {b b' : FrameBuffer} {r r' : Plane → PlaneRect} {c : Memcpy},
      Moves cs (rectDom r) (f.rectAddr b r) (f.rectAddr b' r') → c ∈ cs →
      f.rectSet b r ⊆ f.owned i → f.rectAddr b' r' '' rectDom r ⊆ f.touched i →
      Confined (CellStep.run lib (.copy c)) (f.touched i) (f.owned i) ∧
        (CellStep.copy c).writes ⊆ f.owned i := by
    intro cs b b' r r' c hmoves hc hown htouch
    have hdst := (hmoves.bytes_dst_subset hc).trans hown
    exact ⟨(confined_memcpy c.dst c.src c.n).mono ((hmoves.bytes_src_subset hc).trans htouch) hdst,
      hdst⟩
  rw [ZimgFrame.cellSteps, List.mem_append, List.mem_append] at hact
  -- copy-in, the stores of the graph, copy-out
  rcases hact with (hact | hact) | hact
  · obtain ⟨c, hc, rfl⟩ := List.mem_map.mp hact
    by_cases hz : f.priv.plan.srcZerocopy = true
    · simp [ZimgFrame.copyIn, hz] at hc
    have hz : f.priv.plan.srcZerocopy = false := Bool.not_eq_true _ ▸ hz
    simp only [ZimgFrame.copyIn, hz] at hc
    exact hcopy (h.copyIn_moves hi hapart hz) hc (h.in_owned hi hz) (h.src_touched hi)
  · obtain ⟨⟨q, y, x⟩, hk, rfl⟩ := List.mem_map.mp hact
    have hwrite : {(f.priv.workers i).db.addr q y x} ⊆ f.owned i := by
      rw [Set.singleton_subset_iff, h.db_addr hi (q, y, x)]
      exact h.out_owned hi ⟨_, f.graph_writes_within lib hk, rfl⟩
    -- the graph reads the source rows of the cell and nothing else
    refine ⟨(confined_store fun m m' hm => ?_).mono (h.in_touched hi) hwrite, hwrite⟩
    rw [h.readImage_eq hi, h.readImage_eq hi]
    congr 1
    funext q y x
    unfold sourceImage
    split
    · rename_i hdom
      exact hm ⟨(q, y, x), hdom, rfl⟩
    · rfl
  · obtain ⟨c, hc, rfl⟩ := List.mem_map.mp hact
    by_cases hz : f.priv.plan.dstZerocopy = true
    · simp [(h.emit_nil hi hz).1] at hc
    have hz : f.priv.plan.dstZerocopy = false := Bool.not_eq_true _ ▸ hz
    refine hcopy (h.emit_moves hi hapart hz) hc (h.dst_owned hi) ?_
    rw [← ZimgFrame.rectDom_outRect]
    exact (h.out_owned hi).trans ZimgFrame.owned_touched

/-- After copy-in the graph sees the picture. -/
theorem FrameReady.copyIn_solo (hapart : f.Apart) (m : Memory) {k : Plane × ℕ × ℕ}
    (hk : k ∈ rectDom (f.srcRect i)) :
    solo Memcpy.run (f.copyIn i) m (f.rectAddr f.inBuffer (f.srcRect i) k) =
      m (f.rectAddr .srcPicture (f.srcRect i) k) := by
  by_cases hz : f.priv.plan.srcZerocopy = true
  · rw [ZimgFrame.copyIn, if_pos hz, solo_nil, ZimgFrame.inBuffer, if_pos hz]
  have hz : f.priv.plan.srcZerocopy = false := Bool.not_eq_true _ ▸ hz
  have hin : f.inBuffer ≠ .srcPicture := by
    rw [ZimgFrame.inBuffer, hz]
    decide
  rw [ZimgFrame.copyIn, if_neg (by simp [hz])]
  refine (h.copyIn_moves hi hapart hz).solo_eq (fun k hk k' hk' heq => ?_)
    (fun k hk k' hk' heq => ?_) m hk
  · exact (h.rectAddr_inj hapart hin (h.in_fits hi) (h.in_fits hi) hk hk' heq).2 rfl
  · exact hin (h.rectAddr_inj hapart hin (h.in_fits hi) (h.src_fits hi) hk hk' heq).1

/-- Then the graph writes its output, reading nothing it has written. -/
theorem FrameReady.graph_solo (hapart : f.Apart) (lib : ZimgLib) {m : Memory} {img : Image}
    (himg : sourceImage m (f.view f.inBuffer) (f.srcRect i) = img) {k : Plane × ℕ × ℕ}
    (hk : k ∈ rectDom (f.outRect i)) :
    solo (CellStep.run lib)
        (filterGraphProcess lib (f.graph i) (f.priv.workers i).sb (f.priv.workers i).db 0) m
        (f.rectAddr (f.outBuffer i) (f.outRect i) k) =
      lib.output (f.graph i) img k.1 k.2.1 k.2.2 := by
  have hfits := h.out_fits hi
  have hout : f.outBuffer i ≠ .srcPicture := by
    unfold ZimgFrame.outBuffer
    split
    · simp
    split <;> decide
  have hinout : f.outBuffer i ≠ f.inBuffer := by
    unfold ZimgFrame.outBuffer ZimgFrame.inBuffer
    split
    · split <;> simp
    split <;> split <;> decide
  -- one step stores one position of the output
  have hstep : ∀ act ∈ filterGraphProcess lib (f.graph i) (f.priv.workers i).sb
      (f.priv.workers i).db 0, ∃ k' ∈ rectDom (f.outRect i), ∀ m',
        act.run lib m' = store m' (f.rectAddr (f.outBuffer i) (f.outRect i) k')
          (lib.output (f.graph i) (sourceImage m' (f.view f.inBuffer) (f.srcRect i))
            k'.1 k'.2.1 k'.2.2) ∧
        act.writes = {f.rectAddr (f.outBuffer i) (f.outRect i) k'} := by
    intro act hact
    obtain ⟨⟨q, y, x⟩, hmem, rfl⟩ := List.mem_map.mp hact
    refine ⟨_, f.graph_writes_within lib hmem, fun m' => ⟨?_, ?_⟩⟩
    · rw [CellStep.run, h.readImage_eq hi, h.db_addr hi (q, y, x)]
    · rw [CellStep.writes, h.db_addr hi (q, y, x)]
  refine solo_settles (P := fun m' => sourceImage m' (f.view f.inBuffer) (f.srcRect i) = img)
    (fun act => f.rectAddr (f.outBuffer i) (f.outRect i) k ∈ act.writes)
    (fun act hact m' hm' => ?_) (fun act hact m' hm' htouch => ?_) (fun act hact m' htouch => ?_)
    ?_ himg
  · -- what is still to be read stays
    obtain ⟨k', hk', hrun⟩ := hstep act hact
    rw [(hrun m').1, ← hm']
    funext q y x
    unfold sourceImage
    split
    · rename_i hdom
      refine Function.update_of_ne (fun heq => hinout ?_) _ _
      exact (h.rectAddr_inj hapart hout hfits (h.in_fits hi) hk'
        (show (q, y, x) ∈ rectDom _ from hdom) heq.symm).1
    · rfl
  · obtain ⟨k', hk', hrun⟩ := hstep act hact
    rw [(hrun m').2] at htouch
    obtain rfl := (h.rectAddr_inj hapart hout hfits hfits hk hk' htouch).2 rfl
    rw [(hrun m').1, hm', store, Function.update_self]
  · obtain ⟨k', -, hrun⟩ := hstep act hact
    rw [(hrun m').2] at htouch
    rw [(hrun m').1]
    exact Function.update_of_ne htouch _ _
  · obtain ⟨q, y, x⟩ := k
    rw [ZimgFrame.rectDom_outRect] at hk
    refine ⟨_, List.mem_map_of_mem (lib.writes_all (f.graph i) q y x hk.1 hk.2), ?_⟩
    rw [CellStep.writes, h.db_addr hi (q, y, x)]
    exact Set.mem_singleton _

/-- **A cell alone puts the output of its graph in its place in the picture.** -/
theorem FrameReady.cell_solo (hapart : f.Apart) (lib : ZimgLib) (m : Memory)
    {k : Plane × ℕ × ℕ} (hk : k ∈ rectDom (f.dstRect i)) :
    solo (CellStep.run lib) (f.cellSteps lib i) m (f.rectAddr .dstPicture (f.dstRect i) k) =
      lib.output (f.graph i) (sourceImage m (f.view .srcPicture) (f.srcRect i))
        k.1 k.2.1 k.2.2 := by
  rw [ZimgFrame.cellSteps, solo_append, solo_append, solo_copies, solo_copies]
  have himg : sourceImage (solo Memcpy.run (f.copyIn i) m) (f.view f.inBuffer) (f.srcRect i) =
      sourceImage m (f.view .srcPicture) (f.srcRect i) := by
    funext q y x
    unfold sourceImage
    split
    · rename_i hdom
      exact h.copyIn_solo hi hapart m (k := (q, y, x)) hdom
    · rfl
  have hgraph := h.graph_solo hi hapart lib himg (k := k) (by rwa [ZimgFrame.rectDom_outRect])
  by_cases hz : f.priv.plan.dstZerocopy = true
  · obtain ⟨hnil, haddr⟩ := h.emit_nil hi hz
    rw [hnil, solo_nil, ← haddr]
    exact hgraph
  have hz : f.priv.plan.dstZerocopy = false := Bool.not_eq_true _ ▸ hz
  -- the graph has written to scratch, which copy-out empties into the picture
  have hout : FrameBuffer.dstPicture ≠ f.outBuffer i := by
    unfold ZimgFrame.outBuffer
    rw [hz]
    split <;> simp
  rw [← hgraph]
  refine (h.emit_moves hi hapart hz).solo_eq (fun k hk k' hk' heq => ?_)
    (fun k hk k' hk' heq => ?_) _ hk
  · exact (h.rectAddr_inj hapart (by decide) (h.dst_fits hi) (h.dst_fits hi) hk hk' heq).2 rfl
  · rw [← ZimgFrame.rectDom_outRect] at hk'
    exact hout (h.rectAddr_inj hapart (by decide) (h.dst_fits hi) (h.out_fits hi) hk hk' heq).1

end Alone

/-! ### The whole frame -/

section Frame

variable {ctx : ScalerCtx} {f : ZimgFrame} (h : FrameReady ctx f) {lib : ZimgLib} {rc : ℕ → ℤ}
  (hrc : ∀ i < f.priv.pool.nWorkers, rc i = 0) {m m' : Memory}
include h hrc

theorem FrameReady.separated (lib : ZimgLib) (hapart : f.Apart) :
    Separated (CellStep.run lib) (fun i : Fin f.priv.pool.nWorkers => f.priv.cellRun lib rc i)
      (fun i => f.touched i) (fun i => f.owned i) := by
  refine ⟨fun i act hact => ?_, fun i j hij => ?_⟩
  · rw [h.cellRun_eq i.2 lib (hrc i i.2)] at hact
    exact (h.cellSteps_confined i.2 hapart lib hact).1
  · exact h.owned_apart hapart i.2 j.2 fun heq => hij (Fin.ext heq)

/-- **Whatever the schedule, a byte of the picture is the output of the graph of
its cell.** -/
theorem FrameReady.output (hapart : f.Apart)
    (hrun : Interleaving (CellStep.run lib)
      (fun i : Fin f.priv.pool.nWorkers => f.priv.cellRun lib rc i) m m')
    {i : ℕ} (hi : i < f.priv.pool.nWorkers) {k : Plane × ℕ × ℕ}
    (hk : k ∈ rectDom (f.dstRect i)) :
    m' (f.rectAddr .dstPicture (f.dstRect i) k) =
      lib.output (f.graph i) (sourceImage m (f.view .srcPicture) (f.srcRect i))
        k.1 k.2.1 k.2.2 := by
  have hsolo := hrun.eq_solo (h.separated hrc lib hapart) ⟨i, hi⟩ (h.dst_owned hi ⟨k, hk, rfl⟩)
  rw [hsolo, h.cellRun_eq hi lib (hrc i hi)]
  exact h.cell_solo hi hapart lib m hk

end Frame

end AutoUpscale
