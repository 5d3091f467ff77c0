/-
The scratch buffers against everything the zimg cells address in them
(`src/scaler_zimg.c`, `src/plane_buffer.h`).

Layouts round a plane's size up; the copies shift start and end of a stripe
apart, and the graph is described by extents.  A byte is inside a buffer when its
row and its column are below those of the layout (`PlaneBuffer.Holds`).

- `initPlaneLayout_sized`: what a layout has room for, at any size.
- `cellFits`: each access of a ready cell lies inside its scratch buffer.
- **`scratch_fits`** joins them with the allocation.
-/
import AutoUpscale.ScratchAlloc
import AutoUpscale.ZimgCoverage

namespace AutoUpscale

open MachineInt PlaneMemory

/-! ### Room in a layout -/

/-- The rows or columns of a plane that `v` luma samples take, rounded up. -/
def Plane.ceilExtent (q : Plane) (sub : ℕ) (v : ℤ) : ℤ := ⌈(v : ℚ) / 2 ^ q.shift sub⌉

theorem Plane.ceilExtent_eq (q : Plane) (sub : ℕ) (v : ℤ) :
    q.ceilExtent sub v = -(-v / 2 ^ q.shift sub) := by
  have hceil := Rat.ceil_intCast_div_natCast v (2 ^ q.shift sub)
  rw [Nat.cast_pow, Nat.cast_pow] at hceil
  exact hceil

theorem Plane.shift_le {q : Plane} {sub : ℕ} (hsub : sub ≤ 1) : q.shift sub ≤ 1 := by
  cases q
  · exact Nat.zero_le 1
  · exact hsub
  · exact hsub

/-- Rounding up in steps of one or two. -/
theorem Plane.ceilExtent_cases {q : Plane} {sub : ℕ} (hsub : sub ≤ 1) :
    (q.shift sub = 0 ∧ ∀ v, q.ceilExtent sub v = v) ∨
      (q.shift sub = 1 ∧ ∀ v, q.ceilExtent sub v = (v + 1) / 2) := by
  have hshift := Plane.shift_le (q := q) hsub
  rcases Nat.le_one_iff_eq_zero_or_eq_one.mp hshift with h0 | h1
  · refine .inl ⟨h0, fun v => ?_⟩
    rw [q.ceilExtent_eq, h0, pow_zero, Int.ediv_one, neg_neg]
  · refine .inr ⟨h1, fun v => ?_⟩
    rw [q.ceilExtent_eq, h1, pow_one]
    omega

theorem Plane.ceilExtent_mono {q : Plane} {sub : ℕ} {a b : ℤ} (hsub : sub ≤ 1) (h : a ≤ b) :
    q.ceilExtent sub a ≤ q.ceilExtent sub b := by
  rcases Plane.ceilExtent_cases (q := q) hsub with ⟨-, hc⟩ | ⟨-, hc⟩ <;> rw [hc, hc] <;> omega

/-- A start on a whole chroma sample shifts exactly. -/
theorem Plane.extent_add_ceilExtent {q : Plane} {sub : ℕ} {a b : ℤ} (hsub : sub ≤ 1)
    (ha : 0 ≤ a) (heven : a % 2 = 0) :
    q.extent sub a + q.ceilExtent sub (b - a) = q.ceilExtent sub b := by
  rw [Plane.cast_extent ha]
  rcases Plane.ceilExtent_cases (q := q) hsub with ⟨hs, hc⟩ | ⟨hs, hc⟩ <;> rw [hs, hc, hc]
  · rw [pow_zero, Int.ediv_one]
    omega
  · rw [pow_one]
    omega

/-- Start and end shifted apart span no more than the extent rounded up. -/
theorem Plane.extent_sub_le {q : Plane} {sub : ℕ} {a b : ℤ} (hsub : sub ≤ 1) (ha : 0 ≤ a)
    (hab : a ≤ b) : (q.extent sub b : ℤ) - q.extent sub a ≤ q.ceilExtent sub (b - a) := by
  rw [Plane.cast_extent ha, Plane.cast_extent (ha.trans hab)]
  rcases Plane.ceilExtent_cases (q := q) hsub with ⟨hs, hc⟩ | ⟨hs, hc⟩ <;> rw [hs, hc]
  · rw [pow_zero, Int.ediv_one, Int.ediv_one]
  · rw [pow_one]
    omega

theorem Plane.extent_le_ceilExtent {q : Plane} {sub : ℕ} {v : ℤ} (hsub : sub ≤ 1) (hv : 0 ≤ v) :
    (q.extent sub v : ℤ) ≤ q.ceilExtent sub v := by
  have hle := Plane.extent_sub_le (q := q) hsub le_rfl hv
  rwa [Plane.extent_zero, Nat.cast_zero, sub_zero, sub_zero] at hle

/-- `up_chroma_dim` rounds up. -/
theorem chromaDim_eq_ceil {v : ℤ} {sub : ℕ} (hv : 0 < v) (hsub : sub ≤ 16) :
    chromaDim v sub = ⌈(v : ℚ) / 2 ^ sub⌉ := by
  have hpos : (0 : ℤ) < 2 ^ sub := by positivity
  have hceil := Rat.ceil_intCast_div_natCast v (2 ^ sub)
  push_cast at hceil
  rw [hceil, Int.neg_ediv, Int.sign_eq_one_of_pos hpos]
  unfold chromaDim
  rw [if_neg (by omega), if_neg (by omega)]
  dsimp only
  rw [Int.toNat_natCast]
  by_cases hdvd : (2 : ℤ) ^ sub ∣ v
  · rw [if_pos hdvd, if_neg (not_not.mpr (Int.emod_eq_zero_of_dvd hdvd))]
    ring
  · rw [if_neg hdvd, if_pos (mt Int.dvd_of_emod_eq_zero hdvd)]
    ring

/-- What a layout for `w × h` has room for: aligned rows of at least the plane's
width, and the plane's height with the padding lines. -/
structure PlaneLayout.Sized (layout : PlaneLayout) (w h : ℤ) (subW subH : ℕ) : Prop where
  pitch_aligned : ∀ q, 64 ∣ layout.pitch q
  le_pitch : ∀ q, q.ceilExtent subW w ≤ layout.pitch q
  lines_eq : ∀ q, layout.lines q = q.ceilExtent subH h + 8

theorem planePitch_sized {w : ℤ} (sub : ℕ) (hw : 1 ≤ w) (hmax : w ≤ maxDim) (hsub : sub ≤ 16) :
    64 ∣ planePitch w sub ∧ ⌈(w : ℚ) / 2 ^ sub⌉ ≤ planePitch w sub := by
  unfold planePitch
  rw [if_neg (by omega), ← chromaDim_eq_ceil (by omega) hsub]
  exact ⟨roundUpPitch_dvd _, le_roundUpPitch ((chromaDim_le_self _ (by omega)).2.trans hmax)⟩

theorem planeLines_sized {h : ℤ} (sub : ℕ) (hh : 1 ≤ h) (hmax : h ≤ maxDim) (hsub : sub ≤ 16) :
    planeLines h sub = ⌈(h : ℚ) / 2 ^ sub⌉ + 8 := by
  have hpos : 0 < ⌈(h : ℚ) / 2 ^ sub⌉ := by
    have hh' : (0 : ℚ) < h := by exact_mod_cast hh
    exact Int.ceil_pos.mpr (by positivity)
  rw [← chromaDim_eq_ceil (by omega) hsub] at hpos ⊢
  have hle := (chromaDim_le_self sub (show 0 ≤ h by omega)).2
  have hmaxDim : maxDim = 32768 := rfl
  have hint : intMax = 2147483647 := rfl
  have hpad : scratchLinePad = 8 := rfl
  unfold planeLines roundUpLines
  rw [if_neg (by omega), if_neg (by omega), if_neg (by omega), hpad]

/-- **Every layout has the room**, whatever the size. -/
theorem initPlaneLayout_sized {w h : ℤ} {subW subH : ℕ} (hw : 1 ≤ w) (hwmax : w ≤ maxDim)
    (hh : 1 ≤ h) (hhmax : h ≤ maxDim) (hsubW : subW ≤ 1) (hsubH : subH ≤ 1) :
    (initPlaneLayout w h subW subH).Sized w h subW subH := by
  have hpitch := planePitch_sized subW hw hwmax (by omega)
  have hpitchY := planePitch_sized 0 hw hwmax (by omega)
  have hlines := planeLines_sized subH hh hhmax (by omega)
  have hlinesY := planeLines_sized 0 hh hhmax (by omega)
  refine ⟨fun q => ?_, fun q => ?_, fun q => ?_⟩ <;> cases q
  · exact hpitchY.1
  · exact hpitch.1
  · exact hpitch.1
  · exact hpitchY.2
  · exact hpitch.2
  · exact hpitch.2
  · exact hlinesY
  · exact hlines
  · exact hlines

/-! ### Bytes of a buffer -/

/-- Byte `a` lies in plane `q` of a buffer, its row and its column below those of
the layout. -/
def PlaneBuffer.Holds (b : PlaneBuffer) (q : Plane) (a : ℕ) : Prop :=
  ∃ row col : ℕ, (row : ℤ) < b.layout.lines q ∧ (col : ℤ) < b.layout.pitch q ∧
    a = addr (b.data q) (b.layout.pitch q).toNat row col

/-- Such a byte is one of those asked for. -/
theorem PlaneBuffer.Holds.mem_block {b : PlaneBuffer} {q : Plane} {a : ℕ} (h : b.Holds q a)
    (hlayout : b.layout.InRange) :
    a ∈ bytes (b.data q) (planeAllocBytes (b.layout.lines q) (b.layout.pitch q)) := by
  obtain ⟨row, col, hrow, hcol, rfl⟩ := h
  rw [planeAllocBytes_eq_mul (hlayout q).1 (hlayout q).2, addr, add_assoc]
  refine add_mem_bytes ?_
  calc row * (b.layout.pitch q).toNat + col
      < row * (b.layout.pitch q).toNat + (b.layout.pitch q).toNat := by omega
    _ = (row + 1) * (b.layout.pitch q).toNat := by ring
    _ ≤ (b.layout.lines q).toNat * (b.layout.pitch q).toNat :=
        Nat.mul_le_mul_right _ (by omega)

/-- A stripe that starts on an even row of `size`. -/
structure StripeSpan (size a e : ℤ) : Prop where
  nonneg : 0 ≤ a
  even : a % 2 = 0
  lt : a < e
  le_size : e ≤ size

theorem planeDim_eq_ceilExtent {q : Plane} {sub : ℕ} {v : ℤ} (hv : 0 < v) (hsub : sub ≤ 1) :
    planeDim q sub v = q.ceilExtent sub v := by
  cases q with
  | y =>
    show v = ⌈(v : ℚ) / 2 ^ 0⌉
    rw [pow_zero, div_one, Int.ceil_intCast]
  | u => exact chromaDim_eq_ceil hv (by omega)
  | v => exact chromaDim_eq_ceil hv (by omega)

section Room

variable {b : PlaneBuffer} {w h : ℤ} {subW subH : ℕ} (hb : b.layout.Sized w h subW subH)
  (hsubH : subH ≤ 1)
include hb

/-- The rows and columns of a plane are inside its buffer. -/
theorem PlaneLayout.Sized.holds {q : Plane} {row col : ℕ} (hrow : (row : ℤ) < q.ceilExtent subH h)
    (hcol : (col : ℤ) < q.ceilExtent subW w) :
    b.Holds q (addr (b.data q) (b.layout.pitch q).toNat row col) := by
  refine ⟨row, col, ?_, hcol.trans_le (hb.le_pitch q), rfl⟩
  rw [hb.lines_eq]
  omega

include hsubH

/-- A stripe copied at its own rows. -/
theorem PlaneLayout.Sized.holds_stripe (hsubW : subW ≤ 1) (hw : 0 < w) {a e : ℤ}
    (hspan : StripeSpan h a e) {q : Plane} {y x : ℕ}
    (hy : (y : ℤ) < planePos q subH e - planePos q subH a)
    (hx : (x : ℤ) < planeDim q subW w) :
    b.Holds q (addr ((planeBufferView b).rowAddr q (planePos q subH a))
      (b.layout.pitch q).toNat y x) := by
  have he : 0 ≤ e := hspan.nonneg.trans hspan.lt.le
  rw [planePos_eq hspan.nonneg, planePos_eq he] at hy
  rw [rowAddr_planePos _ _ _ hspan.nonneg]
  show b.Holds q (addr (addr (b.data q) (b.layout.pitch q).toNat _ 0) _ y x)
  rw [addr_addr]
  refine hb.holds ?_ ?_
  · -- the rows end where the end of the stripe is shifted to
    have hend := Plane.extent_le_ceilExtent (q := q) hsubH he
    have hmono := Plane.ceilExtent_mono (q := q) hsubH hspan.le_size
    push_cast
    omega
  · rw [planeDim_eq_ceilExtent hw hsubW] at hx
    push_cast
    omega

/-- A stripe described by its extent, at its own rows. -/
theorem PlaneLayout.Sized.holds_image {a e : ℤ} (hspan : StripeSpan h a e) {offs : Plane → ℤ}
    (hoffs : ∀ q, offs q = planePos q subH a) {q : Plane} {y x : ℕ}
    (hy : (y : ℤ) < q.ceilExtent subH (e - a)) (hx : (x : ℤ) < q.ceilExtent subW w) :
    b.Holds q ((setBufPlanes (planeBufferView b) offs).addr q y x) := by
  have htop : ∀ q, offs q = ((q.extent subH a : ℕ) : ℤ) := fun q =>
    (hoffs q).trans (planePos_eq hspan.nonneg)
  rw [setBufPlanes_addr (planeBufferView b) htop]
  refine hb.holds ?_ hx
  have hadd := Plane.extent_add_ceilExtent (q := q) (b := e) hsubH hspan.nonneg hspan.even
  have hmono := Plane.ceilExtent_mono (q := q) hsubH hspan.le_size
  push_cast
  omega

end Room

section Tile

variable {b : PlaneBuffer} {w a e : ℤ} {subW subH : ℕ}
  (hb : b.layout.Sized w (e - a) subW subH)
include hb

/-- A tile's rows start at the top of its own buffer. -/
theorem PlaneLayout.Sized.holds_tile (hsubW : subW ≤ 1) (hsubH : subH ≤ 1) (hw : 0 < w)
    (ha : 0 ≤ a) (hae : a ≤ e) {q : Plane} {y x : ℕ}
    (hy : (y : ℤ) < planePos q subH e - planePos q subH a) (hx : (x : ℤ) < planeDim q subW w) :
    b.Holds q (addr (b.data q) (b.layout.pitch q).toNat y x) := by
  rw [planePos_eq ha, planePos_eq (ha.trans hae)] at hy
  rw [planeDim_eq_ceilExtent hw hsubW] at hx
  exact hb.holds (hy.trans_le (Plane.extent_sub_le hsubH ha hae)) hx

theorem PlaneLayout.Sized.holds_tileImage {offs : Plane → ℤ} (hoffs : ∀ q, offs q = 0)
    {q : Plane} {y x : ℕ} (hy : (y : ℤ) < q.ceilExtent subH (e - a))
    (hx : (x : ℤ) < q.ceilExtent subW w) :
    b.Holds q ((setBufPlanes (planeBufferView b) offs).addr q y x) := by
  have htop : ∀ q, offs q = (((fun _ => 0 : Plane → ℕ) q : ℕ) : ℤ) := hoffs
  rw [setBufPlanes_addr (planeBufferView b) htop, zero_add]
  exact hb.holds hy hx

end Tile

/-- Each byte of a plane copy has its row and column on both sides. -/
theorem copyPlaneSteps_within {dst src : ℕ} {ds ss rowBytes rows : ℤ} {c : Memcpy}
    (hc : c ∈ copyPlaneSteps dst ds src ss rowBytes rows) {k : ℕ} (hk : k < c.n) :
    ∃ y x : ℕ, (y : ℤ) < rows ∧ (x : ℤ) < rowBytes ∧
      c.dst + k = addr dst ds.toNat y x ∧ c.src + k = addr src ss.toNat y x := by
  by_cases hnone : rows ≤ 0 ∨ rowBytes ≤ 0
  · rw [copyPlaneSteps, if_pos hnone] at hc
    cases hc
  by_cases hnarrow : ds < rowBytes ∨ ss < rowBytes
  · rw [copyPlaneSteps, if_neg hnone, if_pos hnarrow] at hc
    cases hc
  · lift rows to ℕ using by omega
    lift rowBytes to ℕ using by omega
    have hmoves := copyPlaneSteps_moves dst src rows (show rowBytes ≤ ds.toNat by omega)
      (show rowBytes ≤ ss.toNat by omega)
    obtain ⟨i, hi, hd, hs⟩ := hmoves.sound c hc k hk
    exact ⟨i.1, i.2, Int.ofNat_lt.mpr hi.1, Int.ofNat_lt.mpr hi.2, hd, hs⟩

/-! ### The accesses of a cell -/

/-- The rows and columns a graph's image has on a plane, a partial one counted
whole. -/
def ZimgImageFormat.Declares (f : ZimgImageFormat) (q : Plane) (y x : ℕ) : Prop :=
  (y : ℤ) < q.ceilExtent f.subsampleH f.height ∧ (x : ℤ) < q.ceilExtent f.subsampleW f.width

/-- **Every scratch byte a worker addresses is in its buffer**: what it copies in,
the image its graph reads, and on the output side the image its graph writes and
what it copies out, from the shared buffer or from the worker's own tile. -/
structure CellFits (p : ZimgPriv) (w : StripeWorker) : Prop where
  /-- The copies of the worker are those of its planes. -/
  copies : workerCopyInStripe w = [Plane.y, .u, .v].flatMap (copyInPlane w) ∧
    workerCopyOutStripe w = [Plane.y, .u, .v].flatMap (copyOutStripePlane w) ∧
    workerCopyOutTile w = [Plane.y, .u, .v].flatMap (copyOutTilePlane w)
  copyIn : w.copyIn = true → ∀ q, ∀ m ∈ copyInPlane w q, ∀ k < m.n, p.src.Holds q (m.dst + k)
  imageIn : w.copyIn = true → ∀ g ∈ w.graph, ∀ q y x, g.srcFmt.Declares q y x →
    p.src.Holds q (w.sb.addr q y x)
  copyOutStripe : w.colTiled = false → w.copyOut = true → ∀ q, ∀ m ∈ copyOutStripePlane w q,
    ∀ k < m.n, p.dst.Holds q (m.src + k)
  imageOutStripe : w.colTiled = false → w.copyOut = true → ∀ g ∈ w.graph, ∀ q y x,
    g.dstFmt.Declares q y x → p.dst.Holds q (w.db.addr q y x)
  copyOutTile : w.colTiled = true → ∀ q, ∀ m ∈ copyOutTilePlane w q, ∀ k < m.n,
    w.tileDst.Holds q (m.src + k)
  imageOutTile : w.colTiled = true → ∀ g ∈ w.graph, ∀ q y x, g.dstFmt.Declares q y x →
    w.tileDst.Holds q (w.db.addr q y x)

/-! ### Cells of any resolved grid -/

/-- Sizes a context can have. -/
structure ZimgIoReq.SizesInRange (req : ZimgIoReq) : Prop where
  srcW : 1 ≤ req.srcW ∧ req.srcW ≤ maxDim
  srcH : 1 ≤ req.srcH ∧ req.srcH ≤ maxDim
  dstW : 1 ≤ req.dstW ∧ req.dstW ≤ maxDim
  dstH : 1 ≤ req.dstH ∧ req.dstH ≤ maxDim

/-- A backend for a zimg chroma, with the plan resolved for a request and the
layouts that `init_priv_geometry` gives it. -/
structure PlannedFor (req : ZimgIoReq) (p : ZimgPriv) : Prop where
  sizes : req.SizesInRange
  chroma : ∃ chroma, chromaToZimg chroma = some (p.subW, p.subH, p.yv12SwapUv)
  plan : p.plan = resolveIoPlan req
  geom : p.geom = req.geom
  srcLayout : p.src.layout = initPlaneLayout req.srcW req.srcH p.subW p.subH
  dstLayout : p.dst.layout = initPlaneLayout req.dstW req.dstH p.subW p.subH

/-- The cuts of one axis. -/
theorem axis_spans {n src dst k : ℤ} (hsrc : 0 < src) (hdst : 0 < dst)
    (hok : axisPartitionOk n src dst = true) (hk : 0 ≤ k) (hkn : k < n) :
    StripeSpan src (srcCut n src dst k) (srcCut n src dst (k + 1)) ∧
      StripeSpan dst (dstCut n dst k) (dstCut n dst (k + 1)) := by
  obtain ⟨hdlt, hslt⟩ := (axisPartitionOk_iff hsrc hdst).mp hok k hk hkn
  exact ⟨⟨srcCut_nonneg hsrc hdst hk hkn.le, srcCut_even hkn.ne, hslt,
      srcCut_le (by omega) hsrc hdst (by omega)⟩,
    ⟨dstCut_nonneg hdst hk hkn.le, dstCut_even hkn.ne, hdlt, dstCut_le (by omega) hdst (by omega)⟩⟩

/-- The ranges of a cell within the sizes. -/
structure CellSpans (req : ZimgIoReq) (c : CellBounds) : Prop where
  srcRows : StripeSpan req.srcH c.rows.srcStart c.rows.srcEnd
  dstRows : StripeSpan req.dstH c.rows.dstStart c.rows.dstEnd
  srcCols : StripeSpan req.srcW c.cols.srcStart c.cols.srcEnd
  dstCols : StripeSpan req.dstW c.cols.dstStart c.cols.dstEnd
  full : (resolveIoPlan req).nCols = 1 →
    c.cols.srcStart = 0 ∧ c.cols.srcEnd = req.srcW ∧
      c.cols.dstStart = 0 ∧ c.cols.dstEnd = req.dstW

/-- Every index of the resolved grid has a cell inside the sizes. -/
theorem zimgCellBounds_spans {req : ZimgIoReq} (hsizes : req.SizesInRange) {i : ℤ} (hi : 0 ≤ i)
    (hin : i < (resolveIoPlan req).nThreads) :
    ∃ c, zimgCellBounds (resolveIoPlan req) req.geom i = some c ∧ CellSpans req c := by
  have hf := resolveIoPlan_feasible req
  obtain ⟨hsw, hsh, hdw, hdh⟩ := hsizes
  obtain ⟨hr0, hr1, hc0, hc1⟩ := cellIndex_bounds hf.cols_pos hi hin
  have hrow := computeStripeBounds_of_axisPartitionOk (show 0 < req.geom.srcH from hsh.1)
    (show 0 < req.geom.dstH from hdh.1) hf.rows_ok hr0 hr1 default
  have hcol := computeStripeBounds_of_axisPartitionOk (show 0 < req.geom.srcW from hsw.1)
    (show 0 < req.geom.dstW from hdw.1) hf.cols_ok hc0 hc1 default
  obtain ⟨hsrcRows, hdstRows⟩ := axis_spans (show 0 < req.geom.srcH from hsh.1)
    (show 0 < req.geom.dstH from hdh.1) hf.rows_ok hr0 hr1
  obtain ⟨hsrcCols, hdstCols⟩ := axis_spans (show 0 < req.geom.srcW from hsw.1)
    (show 0 < req.geom.dstW from hdw.1) hf.cols_ok hc0 hc1
  refine ⟨gridCell (resolveIoPlan req) req.geom i, ?_, hsrcRows, hdstRows, hsrcCols, hdstCols, ?_⟩
  · unfold zimgCellBounds
    dsimp only
    rw [hrow, hcol]
    rfl
  · intro hone
    dsimp only [gridCell]
    rw [hone, Int.emod_one, zero_add, srcCut_last, dstCut_last, srcCut_zero one_pos,
      dstCut_zero one_pos]
    exact ⟨rfl, rfl, rfl, rfl⟩

section Cells

variable {req : ZimgIoReq} {p : ZimgPriv} (hp : PlannedFor req p)
include hp

theorem PlannedFor.subs_le : p.subW ≤ 1 ∧ p.subH ≤ 1 := by
  obtain ⟨chroma, hchroma⟩ := hp.chroma
  obtain ⟨hw, hh, -⟩ := chromaToZimg_spec hchroma
  exact ⟨hw, hh⟩

theorem PlannedFor.src_sized : p.src.layout.Sized req.srcW req.srcH p.subW p.subH := by
  obtain ⟨⟨hw, hwmax⟩, ⟨hh, hhmax⟩, -, -⟩ := hp.sizes
  rw [hp.srcLayout]
  exact initPlaneLayout_sized hw hwmax hh hhmax hp.subs_le.1 hp.subs_le.2

theorem PlannedFor.dst_sized : p.dst.layout.Sized req.dstW req.dstH p.subW p.subH := by
  obtain ⟨-, -, ⟨hw, hwmax⟩, ⟨hh, hhmax⟩⟩ := hp.sizes
  rw [hp.dstLayout]
  exact initPlaneLayout_sized hw hwmax hh hhmax hp.subs_le.1 hp.subs_le.2

theorem PlannedFor.cell_subs {c : CellBounds} {w : StripeWorker} (hw : CellReady p c w) :
    w.cell.subW = p.subW ∧ w.cell.subH = p.subH := by
  obtain ⟨hsw, hsh⟩ := hp.subs_le
  rw [hw.cell]
  exact ⟨if_pos (by omega), if_pos (by omega)⟩

variable {c : CellBounds} (hc : CellSpans req c) {w : StripeWorker} (hw : CellReady p c w)
include hc hw

/-- A tile's layout is that of a picture as large as the tile. -/
theorem PlannedFor.tile_sized (htiled : p.plan.colTiled = true) :
    w.tileDst.layout.Sized (c.cols.dstEnd - c.cols.dstStart) (c.rows.dstEnd - c.rows.dstStart)
      p.subW p.subH := by
  obtain ⟨hc0, -, hclt, hcle⟩ := hc.dstCols
  obtain ⟨hr0, -, hrlt, hrle⟩ := hc.dstRows
  have hwmax := hp.sizes.dstW.2
  have hhmax := hp.sizes.dstH.2
  rw [hw.tileLayout htiled]
  exact initPlaneLayout_sized (by omega) (by omega) (by omega) (by omega) hp.subs_le.1 hp.subs_le.2

/-- Copy-in works on whole rows of the shared source buffer. -/
theorem PlannedFor.cell_source (hin : w.copyIn = true) :
    w.src = planeBufferView p.src ∧ c.cols.srcEnd - c.cols.srcStart = req.srcW := by
  have hz : p.plan.srcZerocopy = false := by
    rw [hw.copyIn] at hin
    simpa using hin
  have hreq : req.srcZerocopy = false := by
    rw [hp.plan] at hz
    exact hz
  obtain ⟨hs, he, -, -⟩ := hc.full (resolveIoPlan_cols_of_copy_in hreq)
  refine ⟨hw.src hz, ?_⟩
  rw [hs, he, sub_zero]

/-- A stripe copied out lies in whole rows of the shared destination buffer. -/
theorem PlannedFor.cell_target (htiled : w.colTiled = false) (hout : w.copyOut = true) :
    w.dst = planeBufferView p.dst ∧ c.cols.dstEnd - c.cols.dstStart = req.dstW := by
  have hz : p.plan.dstZerocopy = false := by
    rw [hw.copyOut] at hout
    simpa using hout
  have ht : p.plan.colTiled = false := hw.colTiled ▸ htiled
  have hone : (resolveIoPlan req).nCols = 1 := by
    have hpos := (resolveIoPlan_feasible req).cols_pos
    rw [hp.plan] at ht
    have hle : ¬ (resolveIoPlan req).nCols > 1 := of_decide_eq_false ht
    omega
  obtain ⟨-, -, hs, he⟩ := hc.full hone
  refine ⟨hw.dst ht hz, ?_⟩
  rw [hs, he, sub_zero]

/-- The source side, copied and read. -/
theorem PlannedFor.fits_in (hin : w.copyIn = true) :
    (∀ q, ∀ m ∈ copyInPlane w q, ∀ k < m.n, p.src.Holds q (m.dst + k)) ∧
      ∀ g ∈ w.graph, ∀ q y x, g.srcFmt.Declares q y x → p.src.Holds q (w.sb.addr q y x) := by
  have hroom := hp.src_sized
  obtain ⟨hsubW, hsubH⟩ := hp.subs_le
  obtain ⟨hsw, hsh⟩ := hp.cell_subs hw
  obtain ⟨hview, hwidth⟩ := hp.cell_source hc hw hin
  constructor
  · intro q m hm k hk
    obtain ⟨y, x, hy, hx, hd, -⟩ := copyPlaneSteps_within hm hk
    rw [hsh, hw.cell] at hy
    rw [hsw, hw.cell, workerCellGeom, hwidth] at hx
    rw [hd, hsh, hw.cell, hview]
    exact hroom.holds_stripe hsubH hsubW hp.sizes.srcW.1 hc.srcRows hy hx
  · intro g hg q y x hdecl
    rw [hw.graph, Option.mem_some_iff] at hg
    subst hg
    obtain ⟨hy, hx⟩ := hdecl
    have hfull : p.geom.srcW = req.srcW := congrArg TileGeom.srcW hp.geom
    -- a view of whole rows starts at its first one, with no columns before it
    have hoffs : ∀ q, w.srcOffs q = planePos q p.subH c.rows.srcStart := by
      intro q
      rw [w.srcOffs_eq, hsh, hw.cell]
      rfl
    rw [StripeWorker.sb, hview]
    exact hroom.holds_image hsubH hc.srcRows hoffs hy (hfull ▸ hx)

/-- The destination side of a stripe, written and copied out. -/
theorem PlannedFor.fits_stripe (htiled : w.colTiled = false) (hout : w.copyOut = true) :
    (∀ q, ∀ m ∈ copyOutStripePlane w q, ∀ k < m.n, p.dst.Holds q (m.src + k)) ∧
      ∀ g ∈ w.graph, ∀ q y x, g.dstFmt.Declares q y x → p.dst.Holds q (w.db.addr q y x) := by
  have hroom := hp.dst_sized
  obtain ⟨hsubW, hsubH⟩ := hp.subs_le
  obtain ⟨hsw, hsh⟩ := hp.cell_subs hw
  obtain ⟨hview, hwidth⟩ := hp.cell_target hc hw htiled hout
  constructor
  · intro q m hm k hk
    obtain ⟨y, x, hy, hx, -, hs⟩ := copyPlaneSteps_within hm hk
    rw [hsh, hw.cell] at hy
    rw [hsw, hw.cell, workerCellGeom, hwidth] at hx
    rw [hs, hsh, hw.cell, hview]
    exact hroom.holds_stripe hsubH hsubW hp.sizes.dstW.1 hc.dstRows hy hx
  · intro g hg q y x hdecl
    rw [hw.graph, Option.mem_some_iff] at hg
    subst hg
    obtain ⟨hy, hx⟩ := hdecl
    have hoffs : ∀ q, w.dstOffs q = planePos q p.subH c.rows.dstStart := by
      intro q
      rw [w.dstOffs_eq, htiled, hsh, hw.cell]
      rfl
    rw [StripeWorker.db, hview]
    exact hroom.holds_image hsubH hc.dstRows hoffs hy (hwidth ▸ hx)

/-- The destination side of a tile. -/
theorem PlannedFor.fits_tile (htiled : w.colTiled = true) :
    (∀ q, ∀ m ∈ copyOutTilePlane w q, ∀ k < m.n, w.tileDst.Holds q (m.src + k)) ∧
      ∀ g ∈ w.graph, ∀ q y x, g.dstFmt.Declares q y x →
        w.tileDst.Holds q (w.db.addr q y x) := by
  have ht : p.plan.colTiled = true := hw.colTiled ▸ htiled
  have hroom := hp.tile_sized hc hw ht
  have hview := hw.tile ht
  obtain ⟨hsubW, hsubH⟩ := hp.subs_le
  obtain ⟨hsw, hsh⟩ := hp.cell_subs hw
  constructor
  · intro q m hm k hk
    obtain ⟨y, x, hy, hx, -, hs⟩ := copyPlaneSteps_within hm hk
    rw [hsh, hw.cell] at hy
    rw [hsw, hw.cell] at hx
    rw [hs, hview]
    exact hroom.holds_tile hsubW hsubH (sub_pos.mpr hc.dstCols.lt) hc.dstRows.nonneg
      hc.dstRows.lt.le hy hx
  · intro g hg q y x hdecl
    rw [hw.graph, Option.mem_some_iff] at hg
    subst hg
    obtain ⟨hy, hx⟩ := hdecl
    -- a tile has a buffer of its own
    have hoffs : ∀ q, w.dstOffs q = 0 := by
      intro q
      rw [w.dstOffs_eq, htiled]
      rfl
    rw [StripeWorker.db, hview]
    exact hroom.holds_tileImage hoffs hy hx

/-- **Every ready cell fits its scratch.** -/
theorem PlannedFor.cellFits : CellFits p w where
  copies := ⟨workerCopyInStripe_eq w, workerCopyOutStripe_eq w, workerCopyOutTile_eq w⟩
  copyIn := fun hin => (hp.fits_in hc hw hin).1
  imageIn := fun hin => (hp.fits_in hc hw hin).2
  copyOutStripe := fun htiled hout => (hp.fits_stripe hc hw htiled hout).1
  imageOutStripe := fun htiled hout => (hp.fits_stripe hc hw htiled hout).2
  copyOutTile := fun htiled => (hp.fits_tile hc hw htiled).1
  imageOutTile := fun htiled => (hp.fits_tile hc hw htiled).2

end Cells

/-- A backend opened for any sizes is planned for one of its requests. -/
theorem ZimgInv.plannedFor {ctx : ScalerCtx} {workerBudget : ℤ} {p : ZimgPriv}
    (h : ZimgInv ctx workerBudget p)
    (hsizes : (zimgBuildIoReq ctx workerBudget true true).SizesInRange) :
    ∃ srcAligned dstAligned,
      PlannedFor (zimgBuildIoReq ctx workerBudget srcAligned dstAligned) p := by
  obtain ⟨srcAligned, dstAligned, hplan⟩ := h.plan
  obtain ⟨hsw, hsh, hdw, hdh⟩ := hsizes
  exact ⟨srcAligned, dstAligned, ⟨hsw, hsh, hdw, hdh⟩, ⟨_, h.chroma⟩, hplan, h.geom, h.srcLayout,
    h.dstLayout⟩

/-- **No cell leaves its scratch buffers.**  Layouts of all sizes have the room,
every cell of every grid the resolver can return fits, and so do the workers of
every reachable backend; what is allocated for a layout is exactly its lines
times its pitch, at any size and exponent, or nothing. -/
theorem scratch_fits :
    (∀ chroma subW subH swap, chromaToZimg chroma = some (subW, subH, swap) →
      ∀ w h, 1 ≤ w → w ≤ maxDim → 1 ≤ h → h ≤ maxDim →
        (initPlaneLayout w h subW subH).Sized w h subW subH) ∧
    (∀ req p, PlannedFor req p → ∀ i, 0 ≤ i → i < p.plan.nThreads →
      ∃ c, zimgCellBounds p.plan p.geom i = some c ∧ ∀ w, CellReady p c w → CellFits p w) ∧
    (∀ ctx workerBudget p, ZimgReachable ctx workerBudget p →
      (zimgBuildIoReq ctx workerBudget true true).SizesInRange → p.pool.lazyDone = true →
        (p.pool.nWorkers : ℤ) = p.plan.nThreads ∧
          ∀ i, i < p.pool.nWorkers → CellFits p (p.workers i)) ∧
    (∀ width height, int32.Holds width → int32.Holds height → ∀ (subW subH : ℕ) data alloc,
      ∃ layout r, initPlaneLayoutInt width height subW subH = some layout ∧
        (subW ≤ intMax → subH ≤ intMax → layout = initPlaneLayout width height subW subH) ∧
        allocPlaneBufferSize ⟨data, layout⟩ alloc = some r ∧
        BufferAllocated alloc ⟨data, layout⟩ r ∧
        ∀ q a, r.buffer.Holds q a →
          a ∈ bytes (r.buffer.data q) (planeAllocBytes (layout.lines q) (layout.pitch q))) := by
  refine ⟨?_, ?_, ?_, ?_⟩
  · intro chroma subW subH swap hchroma w h hw hwmax hh hhmax
    obtain ⟨hsubW, hsubH, -⟩ := chromaToZimg_spec hchroma
    exact initPlaneLayout_sized hw hwmax hh hhmax hsubW hsubH
  · intro req p hp i hi hin
    rw [hp.plan] at hin
    obtain ⟨c, hbounds, hspans⟩ := zimgCellBounds_spans hp.sizes hi hin
    refine ⟨c, ?_, fun w hw => hp.cellFits hspans hw⟩
    rw [hp.plan, hp.geom]
    exact hbounds
  · intro ctx workerBudget p hreach hsizes hdone
    have hinv := zimgReachable_inv hreach
    obtain ⟨hcount, hready⟩ := hinv.ready hdone
    obtain ⟨srcAligned, dstAligned, hp⟩ := hinv.plannedFor hsizes
    refine ⟨hcount, fun i hi => ?_⟩
    obtain ⟨c, hc, hcell⟩ := hready i hi
    -- the bounds the worker was made from are those of the plan
    have hin : (i : ℤ) < (resolveIoPlan (zimgBuildIoReq ctx workerBudget srcAligned
        dstAligned)).nThreads := by
      rw [← hp.plan, ← hcount]
      exact Int.ofNat_lt.mpr hi
    obtain ⟨c', hc', hspans⟩ := zimgCellBounds_spans hp.sizes (Int.natCast_nonneg i) hin
    rw [hp.plan, hp.geom, hc'] at hc
    obtain rfl := Option.some.inj hc
    exact hp.cellFits hspans hcell
  · intro width height hw hh subW subH data alloc
    have hwidth := (int32_holds.mp hw).2
    have hheight := (int32_holds.mp hh).2
    have hlayout := initPlaneLayoutInt_eq hwidth hheight subW subH
    set layout : PlaneLayout := ⟨byPlane (planePitch width 0) (planePitch width (intOfUnsigned subW)),
      byPlane (planeLines height 0) (planeLines height (intOfUnsigned subH))⟩ with hdef
    have hrange : layout.InRange := by
      intro q
      cases q
      · exact ⟨planeLines_le hheight, planePitch_le hwidth⟩
      · exact ⟨planeLines_le hheight, planePitch_le hwidth⟩
      · exact ⟨planeLines_le hheight, planePitch_le hwidth⟩
    obtain ⟨r, hr, hspec⟩ := allocPlaneBufferSize_spec ⟨data, layout⟩ hrange alloc
    refine ⟨layout, r, hlayout, ?_, hr, hspec, ?_⟩
    · intro hsubW hsubH
      have hsame := initPlaneLayoutInt_of_le hwidth hheight hsubW hsubH
      rw [hlayout] at hsame
      exact Option.some.inj hsame
    · intro q a ha
      have hblock := ha.mem_block (by rw [hspec.layout]; exact hrange)
      rw [hspec.layout] at hblock
      exact hblock

/-! ### Odd sizes -/

/-- A 3x5 YV12 picture scaled to 9x17, copied in and out. -/
def oddCtx : ScalerCtx :=
  { sampleCtx 0 0 with srcW := 3, srcH := 5, srcCodedW := 3, srcCodedH := 5, dstW := 9, dstH := 17 }

def oddPriv : ZimgPriv := (zimgOpen oddCtx 2 true true).get (by decide)

/-- The backend after its first frame. -/
def oddStarted : ZimgPriv :=
  (zimgProcess oddCtx oddPriv (some (slotPicture (fourcc 'Y' 'V' '1' '2') 0 3 5))
    (some (slotPicture (fourcc 'Y' 'V' '1' '2') 3 9 17)) smoothOutcome).priv

theorem oddStarted_reachable : ZimgReachable oddCtx 2 oddStarted :=
  .process (.open (show zimgOpen oddCtx 2 true true = some oddPriv from by
    rw [oddPriv, Option.some_get])) _ _ _

theorem oddSizes : (zimgBuildIoReq oddCtx 2 true true).SizesInRange :=
  ⟨⟨by decide, by decide⟩, ⟨by decide, by decide⟩, ⟨by decide, by decide⟩, ⟨by decide, by decide⟩⟩

/-- Two workers on odd planes, and the sizes at the limits of `int`. -/
theorem scratch_fits_odd :
    (initPlaneLayout 9 17 1 1).Sized 9 17 1 1 ∧
      (∃ c w, zimgCellBounds oddStarted.plan oddStarted.geom 1 = some c ∧
        CellFits oddStarted w) ∧
      CellFits oddStarted (oddStarted.workers 0) ∧ CellFits oddStarted (oddStarted.workers 1) ∧
      ∃ layout r, initPlaneLayoutInt 2147483647 2147483647 1 4294967295 = some layout ∧
        allocPlaneBufferSize ⟨fun _ => 0, layout⟩ (fun _ => some 64) = some r ∧
        BufferAllocated (fun _ => some 64) ⟨fun _ => 0, layout⟩ r := by
  obtain ⟨hlayouts, hcells, hreach, hallocs⟩ := scratch_fits
  have hdone : oddStarted.pool.lazyDone = true := by decide +kernel
  have hworkers : oddStarted.pool.nWorkers = 2 := by decide +kernel
  obtain ⟨hcount, hfits⟩ := hreach oddCtx 2 oddStarted oddStarted_reachable oddSizes hdone
  obtain ⟨srcAligned, dstAligned, hp⟩ :=
    (zimgReachable_inv oddStarted_reachable).plannedFor oddSizes
  obtain ⟨c, hc, hcell⟩ := hcells _ oddStarted hp 1 (by decide) (by rw [← hcount, hworkers]; decide)
  obtain ⟨c', hc', hready⟩ :=
    ((zimgReachable_inv oddStarted_reachable).ready hdone).2 1 (by rw [hworkers]; decide)
  obtain rfl : c = c' := Option.some.inj (hc.symm.trans hc')
  obtain ⟨layout, r, hlayout, -, hr, hspec, -⟩ := hallocs 2147483647 2147483647 (by decide)
    (by decide) 1 4294967295 (fun _ => 0) (fun _ => some 64)
  exact ⟨hlayouts (fourcc 'Y' 'V' '1' '2') 1 1 true (by decide) 9 17 (by decide) (by decide)
      (by decide) (by decide),
    ⟨c, _, hc, hcell _ hready⟩, hfits 0 (by rw [hworkers]; decide),
    hfits 1 (by rw [hworkers]; decide), layout, r, hlayout, hr, hspec⟩

end AutoUpscale
