/-
The swscale backend (`src/scaler_swscale.c`): the fallback for every software
chroma.

libswscale itself is not modelled: a frame brings the number of lines that
`sws_scale` returns, and the model gives the call that was made.
`AVPixelFormat.rows` and `rowBytes` say how much of each plane such a call may
touch.  The two view checks are those of `zimgFrameViewsInit`.

- `swsProcess_exit`: the ways out of a frame.
- **`swscale_contract`**: in every state a caller can hold, a frame is never
  fatal and is OK exactly when both views hold and all lines come back.  A frame
  without views calls nothing; any other hands libswscale the planes of its views,
  U before V, inside the storage of the pictures, the same ones that the zimg
  backend would use.  Each complaint is made once.
-/
import AutoUpscale.PictureContract
import AutoUpscale.ZimgFrame

namespace AutoUpscale

/-! ### libswscale -/

/-- The `AVPixelFormat` values in use; `AV_PIX_FMT_NONE` is no value. -/
inductive AVPixelFormat
  | yuv420p | yuv422p | yuv444p | nv12 | nv21 | rgb24 | rgba | bgra
  deriving DecidableEq, Repr

namespace AVPixelFormat

/-- The planes of a format. -/
def planeCount : AVPixelFormat → ℕ
  | .yuv420p | .yuv422p | .yuv444p => 3
  | .nv12 | .nv21 => 2
  | .rgb24 | .rgba | .bgra => 1

/-- `log2_chroma_w` -/
def log2ChromaW : AVPixelFormat → ℕ
  | .yuv420p | .yuv422p | .nv12 | .nv21 => 1
  | _ => 0

/-- `log2_chroma_h` -/
def log2ChromaH : AVPixelFormat → ℕ
  | .yuv420p | .nv12 | .nv21 => 1
  | _ => 0

/-- The bytes from a pixel of plane `k` to the next. -/
def step (fmt : AVPixelFormat) (k : ℕ) : ℕ :=
  match fmt with
  | .nv12 | .nv21 => if k = 0 then 1 else 2
  | .rgb24 => 3
  | .rgba | .bgra => 4
  | _ => 1

/-- `AV_CEIL_RSHIFT` -/
def ceilRshift (a b : ℕ) : ℕ := (a + 2 ^ b - 1) / 2 ^ b

/-- The bytes of a row of plane `k` of an image `w` pixels wide. -/
def rowBytes (fmt : AVPixelFormat) (w k : ℕ) : ℕ :=
  ceilRshift w (if k = 0 then 0 else fmt.log2ChromaW) * fmt.step k

/-- The rows of plane `k` of an image `h` pixels high. -/
def rows (fmt : AVPixelFormat) (h k : ℕ) : ℕ :=
  ceilRshift h (if k = 0 then 0 else fmt.log2ChromaH)

end AVPixelFormat

/-- `SWS_FAST_BILINEAR`, `SWS_BICUBIC`, `SWS_LANCZOS` -/
inductive SwsFilter
  | fastBilinear | bicubic | lanczos
  deriving DecidableEq, Repr

/-- The flags of `sws_getContext`: a filter, `SWS_ACCURATE_RND`,
`SWS_FULL_CHR_H_INT` and `SWS_FULL_CHR_H_INP`. -/
structure SwsFlags where
  filter : SwsFilter
  accurateRnd : Bool
  fullChrHInt : Bool
  fullChrHInp : Bool
  deriving DecidableEq, Repr

/-- A `SwsContext`: what it was made from. -/
structure SwsContext where
  srcW : ℤ
  srcH : ℤ
  srcFormat : AVPixelFormat
  dstW : ℤ
  dstH : ℤ
  dstFormat : AVPixelFormat
  flags : SwsFlags
  deriving DecidableEq, Repr

/-- The four data pointers and strides of a side of `sws_scale`. -/
structure SwsPlanes where
  data : ℕ → Option ℕ
  stride : ℕ → ℤ

/-- A call of `sws_scale`. -/
structure SwsScaleCall where
  ctx : SwsContext
  src : SwsPlanes
  srcSliceY : ℤ
  srcSliceH : ℤ
  dst : SwsPlanes

/-! ### The backend -/

/-- `sws_priv_t` -/
structure SwsPriv where
  ctx : SwsContext
  geomLogged : Bool
  shortLogged : Bool
  deriving DecidableEq, Repr

/-- The `switch` of `ChromaToAVFmt` -/
def ChromaLayout.avFormat : ChromaLayout → Option AVPixelFormat
  | .yuv420p => some .yuv420p
  | .yuv422p => some .yuv422p
  | .yuv444p => some .yuv444p
  | .nv12 => some .nv12
  | .nv21 => some .nv21
  | .rgb24 => some .rgb24
  | .rgba => some .rgba
  | .bgra => some .bgra
  | .invalid => none

/-- `ChromaToAVFmt` -/
def chromaToAVFmt (c : ℕ) : Option AVPixelFormat :=
  match chromaDescriptor c with
  | none => none
  | some desc => desc.layout.avFormat

/-- `AlgoToSwsFlags` -/
def algoToSwsFlags (algo : ℤ) : SwsFlags :=
  { filter :=
      if algo = algoFastBilinear then .fastBilinear
      else if algo = algoBicubic then .bicubic
      else .lanczos
    accurateRnd := true
    fullChrHInt := true
    fullChrHInp := true }

/-- `sws_supports` -/
def swsSupports (chroma : ℕ) (_algo : ℤ) : Bool := (chromaToAVFmt chroma).isSome

/-- `sws_open`; `alloc` says whether the allocation succeeds, `context` whether
`sws_getContext` does. -/
def swsOpen (ctx : ScalerCtx) (alloc context : Bool) : Option SwsPriv :=
  match chromaToAVFmt ctx.chroma with
  | none => none
  | some fmt =>
    if alloc = false then none
    else if context = false then none
    else some
      { ctx :=
          { srcW := ctx.srcW
            srcH := ctx.srcH
            srcFormat := fmt
            dstW := ctx.dstW
            dstH := ctx.dstH
            dstFormat := fmt
            flags := algoToSwsFlags ctx.algo }
        geomLogged := false
        shortLogged := false }

/-- The two messages of `sws_log_once`. -/
inductive SwsMessage
  | geometry | short
  deriving DecidableEq, Repr

/-- The arrays that `sws_process` fills from a view. -/
def swsPlanes (view : PictureView) (swap : Bool) : SwsPlanes where
  data i :=
    if i < view.planeCount ∧ i < 4 then
      some (view.plane (chromaPhysicalPlaneIndex i swap)).pixels
    else none
  stride i :=
    if i < view.planeCount ∧ i < 4 then (view.plane (chromaPhysicalPlaneIndex i swap)).pitch else 0

/-- `scaler_process_lines_status` -/
def processLinesStatus (writtenLines expectedLines : ℤ) : ProcessStatus :=
  if writtenLines = expectedLines then .ok else .transient

/-- The result of a frame: its status, the backend after it, the call of
`sws_scale` and what was logged. -/
structure SwsProcessed where
  status : ProcessStatus
  priv : Option SwsPriv
  call : Option SwsScaleCall
  log : List SwsMessage

/-- `sws_process` where `sws_scale` returns `rc`. -/
def swsProcess (ctx : ScalerCtx) (priv : Option SwsPriv) (src dst : Option Picture) (rc : ℤ) :
    SwsProcessed :=
  match priv with
  | none => ⟨.fatal, none, none, []⟩
  | some p =>
    match chromaDescriptor ctx.chroma with
    | none => ⟨.fatal, some p, none, []⟩
    | some desc =>
      match zimgFrameViewsInit ctx src dst with
      | none =>
        ⟨.transient, some { p with geomLogged := true }, none,
          if p.geomLogged then [] else [.geometry]⟩
      | some (srcView, dstView) =>
        let call : SwsScaleCall :=
          { ctx := p.ctx
            src := swsPlanes srcView desc.uvPlanesSwapped
            srcSliceY := 0
            srcSliceH := ctx.srcH
            dst := swsPlanes dstView desc.uvPlanesSwapped }
        let status := processLinesStatus rc ctx.dstH
        if rc < ctx.dstH then
          ⟨status, some { p with shortLogged := true }, some call,
            if p.shortLogged then [] else [.short]⟩
        else ⟨status, some p, some call, []⟩

/-- A call of `sws_process`, with what `sws_scale` returns. -/
structure SwsCall where
  src : Option Picture
  dst : Option Picture
  rc : ℤ

/-- The backend after a sequence of frames, with all it logged. -/
def swsAfter (ctx : ScalerCtx) (p : SwsPriv) : List SwsCall → SwsPriv × List SwsMessage
  | [] => (p, [])
  | c :: calls =>
    let r := swsProcess ctx (some p) c.src c.dst c.rc
    let rest := swsAfter ctx (r.priv.getD p) calls
    (rest.1, r.log ++ rest.2)

/-! ### Formats and chromas -/

/-- Both backends go by the same table of chromas. -/
theorem swsSupports_eq (c : ℕ) (algo : ℤ) :
    swsSupports c algo = (chromaDescriptor c).isSome := by
  unfold swsSupports chromaToAVFmt
  cases hdesc : chromaDescriptor c with
  | none => rfl
  | some desc =>
    have htable : ∀ d ∈ chromaDescriptors, d.layout.avFormat.isSome = true := by decide
    exact htable desc (List.mem_of_find?_eq_some hdesc)

/-- What zimg takes, swscale takes. -/
theorem swsSupports_of_zimg {c : ℕ} {algo : ℤ} (h : zimgSupports c algo = true) (algo' : ℤ) :
    swsSupports c algo' = true := by
  rw [swsSupports_eq]
  unfold zimgSupports chromaToZimg at h
  cases hdesc : chromaDescriptor c with
  | none => simp [hdesc] at h
  | some desc => rfl

/-- Plane `k` of the format `fmt` is plane `i` of a descriptor. -/
def PlaneAgrees (layout : ChromaDescriptor) (fmt : AVPixelFormat) (k i : ℕ) : Prop :=
  layout.xGroupPixels.getD i 0 = 2 ^ (if k = 0 then 0 else fmt.log2ChromaW) ∧
    layout.xGroupBytes.getD i 0 = fmt.step k ∧
    layout.yGroupPixels.getD i 0 = 2 ^ (if k = 0 then 0 else fmt.log2ChromaH) ∧
    0 < layout.pixelPitch.getD i 0 ∧ 0 < fmt.step k ∧
    fmt.step k % layout.pixelPitch.getD i 0 = 0

instance (layout : ChromaDescriptor) (fmt : AVPixelFormat) (k i : ℕ) :
    Decidable (PlaneAgrees layout fmt k i) := inferInstanceAs (Decidable (_ ∧ _))

/-- The planes of a chroma, in the order of its format. -/
structure PlanesAgree (layout : ChromaDescriptor) (fmt : AVPixelFormat) : Prop where
  count : layout.planeCount = fmt.planeCount
  four : fmt.planeCount ≤ 4
  plane : ∀ k < fmt.planeCount,
    chromaPhysicalPlaneIndex k layout.uvPlanesSwapped < layout.planeCount ∧
      PlaneAgrees layout fmt k (chromaPhysicalPlaneIndex k layout.uvPlanesSwapped)

theorem chromaToAVFmt_planes {c : ℕ} {fmt : AVPixelFormat} (h : chromaToAVFmt c = some fmt) :
    ∃ layout, chromaDescriptor c = some layout ∧ PlanesAgree layout fmt := by
  unfold chromaToAVFmt at h
  cases hdesc : chromaDescriptor c with
  | none => simp [hdesc] at h
  | some desc =>
    rw [hdesc] at h
    have htable : ∀ d ∈ chromaDescriptors, (d.layout.avFormat.all fun fmt =>
        decide (d.planeCount = fmt.planeCount ∧ fmt.planeCount ≤ 4 ∧ ∀ k < fmt.planeCount,
          chromaPhysicalPlaneIndex k d.uvPlanesSwapped < d.planeCount ∧
            PlaneAgrees d fmt k (chromaPhysicalPlaneIndex k d.uvPlanesSwapped))) = true := by
      decide
    have hplanes := htable desc (List.mem_of_find?_eq_some hdesc)
    rw [show desc.layout.avFormat = some fmt from h] at hplanes
    obtain ⟨hcount, hfour, hplane⟩ := of_decide_eq_true hplanes
    exact ⟨desc, rfl, hcount, hfour, hplane⟩

/-- The groups that cover `len` pixels are among those a window of `len` meets. -/
theorem ceilRshift_le (off len b : ℕ) :
    AVPixelFormat.ceilRshift len b ≤ (off + len + 2 ^ b - 1) / 2 ^ b - off / 2 ^ b := by
  have hpos : 0 < 2 ^ b := Nat.two_pow_pos b
  have hadd : off / 2 ^ b + (len + 2 ^ b - 1) / 2 ^ b ≤ (off + (len + 2 ^ b - 1)) / 2 ^ b :=
    Nat.div_add_div_le_add_div
  have hsum : off + (len + 2 ^ b - 1) = off + len + 2 ^ b - 1 := by omega
  rw [hsum] at hadd
  unfold AVPixelFormat.ceilRshift
  omega

/-- What libswscale takes of a plane is in the extent that the view was checked
for. -/
theorem avImage_le_extent {layout : ChromaDescriptor} {fmt : AVPixelFormat} {k i : ℕ}
    (h : PlaneAgrees layout fmt k i) (region : PictureRegion) :
    fmt.rowBytes region.width.toNat k ≤
        (picturePlaneExtent (layout.planeGeom region i)).rowBytes ∧
      fmt.rows region.height.toNat k ≤
        (picturePlaneExtent (layout.planeGeom region i)).height := by
  obtain ⟨hx, hgb, hy, hpp, hstep, hmod⟩ := h
  have hxpos : 0 < 2 ^ (if k = 0 then 0 else fmt.log2ChromaW) := Nat.two_pow_pos _
  have hypos : 0 < 2 ^ (if k = 0 then 0 else fmt.log2ChromaH) := Nat.two_pow_pos _
  have hgood : ¬ (2 ^ (if k = 0 then 0 else fmt.log2ChromaW) = 0 ∨ fmt.step k = 0 ∨
      2 ^ (if k = 0 then 0 else fmt.log2ChromaH) = 0 ∨
      ((layout.pixelPitch.getD i 0 : ℕ) : ℤ) ≤ 0 ∨
      fmt.step k % ((layout.pixelPitch.getD i 0 : ℕ) : ℤ).toNat ≠ 0) := by
    rw [Int.toNat_natCast]
    omega
  unfold picturePlaneExtent ChromaDescriptor.planeGeom
  simp only [hx, hgb, hy]
  rw [if_neg hgood]
  constructor
  · exact Nat.mul_le_mul_right _ (ceilRshift_le _ _ _)
  · exact ceilRshift_le _ _ _

/-! ### The planes handed to libswscale -/

/-- The arrays of one side are the planes of a view, in the order of the format. -/
structure SwsPlanes.Shows (s : SwsPlanes) (fmt : AVPixelFormat) (chroma : ℕ)
    (view : PictureView) : Prop where
  null : ∀ k, fmt.planeCount ≤ k → s.data k = none ∧ s.stride k = 0
  plane : ∀ k < fmt.planeCount,
    s.data k = some (view.plane (storedPlane chroma k)).pixels ∧
      s.stride k = (view.plane (storedPlane chroma k)).pitch

/-- What libswscale takes of the arrays of one side lies in the storage of `pic`. -/
structure SwsPlanes.Inside (s : SwsPlanes) (fmt : AVPixelFormat) (w h : ℤ) (pic : Picture)
    (chroma : ℕ) : Prop where
  plane : ∀ k < fmt.planeCount, ∃ start base, s.data k = some start ∧
    (pic.p (storedPlane chroma k)).pixels = some base ∧
    ∀ y < fmt.rows h.toNat k, ∀ x < fmt.rowBytes w.toNat k, ∃ offset,
      start + y * (s.stride k).toNat + x = base + offset ∧
        (offset : ℤ) < (pic.p (storedPlane chroma k)).pitch * (pic.p (storedPlane chroma k)).lines

section Sides

variable {c : ℕ} {layout : ChromaDescriptor} {fmt : AVPixelFormat}
  (hdesc : chromaDescriptor c = some layout) (hplanes : PlanesAgree layout fmt)
  {region : PictureRegion} {view : PictureView}

include hdesc hplanes

theorem swsPlanes_shows {pic : Option Picture}
    (hview : pictureViewInit pic c region = some view) :
    (swsPlanes view layout.uvPlanesSwapped).Shows fmt c view := by
  obtain ⟨pic', layout', -, hdesc', hcount, -⟩ := pictureViewInit_plane hview
  obtain rfl := Option.some.inj (hdesc.symm.trans hdesc')
  have hfour := hplanes.four
  have hcount' := hplanes.count
  constructor
  · intro k hk
    exact ⟨if_neg (by omega), if_neg (by omega)⟩
  · intro k hk
    have hin : k < view.planeCount ∧ k < 4 := by omega
    rw [← chromaPhysicalPlaneIndex_eq (chromaDescriptor_swap hdesc)]
    exact ⟨if_pos hin, if_pos hin⟩

theorem swsPlanes_inside {pic : Picture} (hpic : pic.Typed)
    (hview : pictureViewInit (some pic) c region = some view) :
    (swsPlanes view layout.uvPlanesSwapped).Inside fmt region.width region.height pic c := by
  obtain ⟨pic', layout', hsome, hdesc', hcount, hinit⟩ := pictureViewInit_plane hview
  obtain rfl := Option.some.inj hsome
  obtain rfl := Option.some.inj (hdesc.symm.trans hdesc')
  have hfour := hplanes.four
  have hcount' := hplanes.count
  refine ⟨fun k hk => ?_⟩
  rw [← chromaPhysicalPlaneIndex_eq (chromaDescriptor_swap hdesc)]
  obtain ⟨hphys, hagree⟩ := hplanes.plane k hk
  obtain ⟨base, hbase, hsound⟩ := picturePlaneViewInit_sound (hpic.plane _) (hinit _ hphys)
  obtain ⟨hrow, hrows⟩ := avImage_le_extent hagree region
  have hin : k < view.planeCount ∧ k < 4 := by omega
  refine ⟨_, base, if_pos hin, hbase, fun y hy x hx => ?_⟩
  obtain ⟨offset, haddr, hlt, -⟩ := hsound y (hy.trans_le hrows) x (hx.trans_le hrow)
  rw [show (swsPlanes view layout.uvPlanesSwapped).stride k = _ from if_pos hin]
  exact ⟨offset, haddr, hlt⟩

end Sides

/-- On a planar chroma these are the planes of the zimg cells. -/
theorem swsPlanes_picturePlanes {c subW subH : ℕ} {swap : Bool}
    (hchroma : chromaToZimg c = some (subW, subH, swap)) {pic : Option Picture}
    {region : PictureRegion} {view : PictureView}
    (hview : pictureViewInit pic c region = some view) (q : Plane) :
    (swsPlanes view swap).data q.index = some ((picturePlanes swap view).data q) ∧
      (swsPlanes view swap).stride q.index = (picturePlanes swap view).pitch q := by
  obtain ⟨pic', layout, -, hdesc, hcount, -⟩ := pictureViewInit_plane hview
  obtain ⟨layout', hdesc', hthree, -⟩ := chromaToZimg_planes hchroma
  obtain rfl := Option.some.inj (hdesc.symm.trans hdesc')
  have hindex : q.index < 3 := by cases q <;> decide
  have hin : q.index < view.planeCount ∧ q.index < 4 := by omega
  exact ⟨if_pos hin, if_pos hin⟩

/-! ### Frames -/

/-- The messages a backend has still to make. -/
def SwsPriv.unlogged (p : SwsPriv) : SwsMessage → ℕ
  | .geometry => if p.geomLogged then 0 else 1
  | .short => if p.shortLogged then 0 else 1

section Frames

variable {ctx : ScalerCtx} {p : SwsPriv} {c : SwsCall}

/-- The ways out of a frame on a backend that is open for a chroma it takes. -/
inductive SwsExit (ctx : ScalerCtx) (p : SwsPriv) (c : SwsCall) (layout : ChromaDescriptor)
    (r : SwsProcessed) : Prop
  | badViews (hviews : zimgFrameViewsInit ctx c.src c.dst = none)
      (hcall : r = ⟨.transient, some { p with geomLogged := true }, none,
        if p.geomLogged then [] else [.geometry]⟩)
  | scaled (srcView dstView : PictureView) (p' : SwsPriv) (log : List SwsMessage)
      (hviews : zimgFrameViewsInit ctx c.src c.dst = some (srcView, dstView))
      (hlogged : p' = p ∧ log = [] ∨ p' = { p with shortLogged := true } ∧
        log = if p.shortLogged then [] else [.short])
      (hcall : r = ⟨processLinesStatus c.rc ctx.dstH, some p',
        some ⟨p.ctx, swsPlanes srcView layout.uvPlanesSwapped, 0, ctx.srcH,
          swsPlanes dstView layout.uvPlanesSwapped⟩, log⟩)

theorem swsProcess_exit {layout : ChromaDescriptor}
    (hdesc : chromaDescriptor ctx.chroma = some layout) :
    SwsExit ctx p c layout (swsProcess ctx (some p) c.src c.dst c.rc) := by
  unfold swsProcess
  simp only [hdesc]
  cases hviews : zimgFrameViewsInit ctx c.src c.dst with
  | none => exact .badViews hviews rfl
  | some views =>
    obtain ⟨srcView, dstView⟩ := views
    dsimp only
    split
    · exact .scaled srcView dstView _ _ hviews (.inr ⟨rfl, rfl⟩) rfl
    · exact .scaled srcView dstView _ _ hviews (.inl ⟨rfl, rfl⟩) rfl

/-- A frame without views is dropped before libswscale is called. -/
theorem SwsExit.refused {layout : ChromaDescriptor} {r : SwsProcessed}
    (h : SwsExit ctx p c layout r) (hnone : zimgFrameViewsInit ctx c.src c.dst = none) :
    r.status = .transient ∧ r.call = none ∧ r.priv = some { p with geomLogged := true } := by
  cases h with
  | badViews _ hcall =>
    rw [hcall]
    exact ⟨rfl, rfl, rfl⟩
  | scaled _ _ _ _ hviews _ _ => exact absurd (hnone.symm.trans hviews) (by simp)

/-- The planes of both views are handed over whatever comes back. -/
theorem SwsExit.handed {layout : ChromaDescriptor} {r : SwsProcessed}
    (h : SwsExit ctx p c layout r) {srcView dstView : PictureView}
    (hviews : zimgFrameViewsInit ctx c.src c.dst = some (srcView, dstView)) :
    r.call = some ⟨p.ctx, swsPlanes srcView layout.uvPlanesSwapped, 0, ctx.srcH,
      swsPlanes dstView layout.uvPlanesSwapped⟩ := by
  cases h with
  | badViews hnone _ => exact absurd (hnone.symm.trans hviews) (by simp)
  | scaled srcView' dstView' _ _ hviews' _ hcall =>
    obtain ⟨rfl, rfl⟩ := Prod.mk.inj (Option.some.inj (hviews.symm.trans hviews'))
    rw [hcall]

/-- A frame keeps the context, and pays for what it logs. -/
theorem SwsExit.frame {layout : ChromaDescriptor} {r : SwsProcessed}
    (h : SwsExit ctx p c layout r) : ∃ p', r.priv = some p' ∧ p'.ctx = p.ctx ∧
      ∀ msg, r.log.count msg + p'.unlogged msg = p.unlogged msg := by
  have hmsg : ∀ b : Bool, ∀ m msg : SwsMessage, (if b then [] else [m]).count msg =
      if msg = m then (if b then 0 else 1) else 0 := by
    intro b m msg
    cases b <;> cases m <;> cases msg <;> rfl
  cases h with
  | badViews _ hcall =>
    rw [hcall]
    refine ⟨_, rfl, rfl, fun msg => ?_⟩
    rw [hmsg]
    cases msg <;> simp [SwsPriv.unlogged]
  | scaled _ _ p' log _ hlogged hcall =>
    rw [hcall]
    rcases hlogged with ⟨rfl, rfl⟩ | ⟨rfl, rfl⟩
    · exact ⟨_, rfl, rfl, fun msg => Nat.zero_add _⟩
    · refine ⟨_, rfl, rfl, fun msg => ?_⟩
      rw [hmsg]
      cases msg <;> simp [SwsPriv.unlogged]

theorem processLinesStatus_ok {rc n : ℤ} : processLinesStatus rc n = .ok ↔ rc = n := by
  unfold processLinesStatus
  split <;> simp_all

/-- No frame is fatal, and one with both views in order is dropped only if lines are
missing. -/
theorem SwsExit.status {layout : ChromaDescriptor} {r : SwsProcessed}
    (h : SwsExit ctx p c layout r) : r.status ≠ .fatal ∧
      (r.status = .ok ↔ (zimgFrameViewsInit ctx c.src c.dst).isSome = true ∧
        c.rc = ctx.dstH) := by
  cases h with
  | badViews hviews hcall => simp [hcall, hviews]
  | scaled _ _ _ _ hviews _ hcall =>
    rw [hcall]
    refine ⟨?_, by simp [hviews, processLinesStatus_ok]⟩
    show processLinesStatus c.rc ctx.dstH ≠ .fatal
    unfold processLinesStatus
    split <;> simp

theorem swsAfter_frame {layout : ChromaDescriptor}
    (hdesc : chromaDescriptor ctx.chroma = some layout) (calls : List SwsCall) :
    (swsAfter ctx p calls).1.ctx = p.ctx ∧ ∀ msg,
      (swsAfter ctx p calls).2.count msg + (swsAfter ctx p calls).1.unlogged msg =
        p.unlogged msg := by
  induction calls generalizing p with
  | nil => exact ⟨rfl, fun msg => Nat.zero_add _⟩
  | cons c calls ih =>
    obtain ⟨p', hpriv, hctx, hlog⟩ := (swsProcess_exit (p := p) (c := c) hdesc).frame
    obtain ⟨hctx', hlog'⟩ := ih (p := p')
    rw [swsAfter, hpriv]
    refine ⟨hctx'.trans hctx, fun msg => ?_⟩
    rw [List.count_append, ← hlog msg, ← hlog' msg, Nat.add_assoc]
    rfl

theorem swsOpen_spec {alloc context : Bool} (h : swsOpen ctx alloc context = some p) :
    ∃ fmt, chromaToAVFmt ctx.chroma = some fmt ∧
      p = ⟨⟨ctx.srcW, ctx.srcH, fmt, ctx.dstW, ctx.dstH, fmt, algoToSwsFlags ctx.algo⟩,
        false, false⟩ := by
  unfold swsOpen at h
  split at h
  · cases h
  rename_i fmt hfmt
  split at h
  · cases h
  split at h
  · cases h
  · exact ⟨fmt, hfmt, (Option.some.inj h).symm⟩

end Frames

/-! ### The contract -/

/-- A frame `c` after the frames `before` on a backend opened as `p₀`. -/
structure SwsLaw (ctx : ScalerCtx) (p₀ : SwsPriv) (before : List SwsCall) (c : SwsCall)
    (r : SwsProcessed) : Prop where
  alive : r.status ≠ .fatal ∧ ∃ p, r.priv = some p ∧ p.ctx = p₀.ctx
  ok : r.status = .ok ↔ (zimgFrameViewsInit ctx c.src c.dst).isSome = true ∧ c.rc = ctx.dstH
  /-- A frame without views calls nothing; all that changes is that it is logged. -/
  refused : zimgFrameViewsInit ctx c.src c.dst = none → r.status = .transient ∧ r.call = none ∧
    r.priv = some { (swsAfter ctx p₀ before).1 with geomLogged := true }
  /-- On any other libswscale is called, for whole frames of the planned sizes, with
  the planes of the views, inside the pictures. -/
  called : ∀ srcView dstView, zimgFrameViewsInit ctx c.src c.dst = some (srcView, dstView) →
    ∃ call fmt src dst, r.call = some call ∧ chromaToAVFmt ctx.chroma = some fmt ∧
      c.src = some src ∧ c.dst = some dst ∧
      call.ctx = ⟨ctx.srcW, ctx.srcH, fmt, ctx.dstW, ctx.dstH, fmt, algoToSwsFlags ctx.algo⟩ ∧
      call.srcSliceY = 0 ∧ call.srcSliceH = ctx.srcH ∧
      call.src.Shows fmt ctx.chroma srcView ∧ call.dst.Shows fmt ctx.chroma dstView ∧
      (src.Typed → call.src.Inside fmt ctx.srcW ctx.srcH src ctx.chroma) ∧
      (dst.Typed → call.dst.Inside fmt ctx.dstW ctx.dstH dst ctx.chroma)
  /-- On a planar chroma both backends are given the same planes. -/
  planar : ∀ subW subH swap srcView dstView,
    chromaToZimg ctx.chroma = some (subW, subH, swap) →
    zimgFrameViewsInit ctx c.src c.dst = some (srcView, dstView) →
    ∃ call, r.call = some call ∧ ∀ q : Plane,
      call.src.data q.index = some ((picturePlanes swap srcView).data q) ∧
      call.src.stride q.index = (picturePlanes swap srcView).pitch q ∧
      call.dst.data q.index = some ((picturePlanes swap dstView).data q) ∧
      call.dst.stride q.index = (picturePlanes swap dstView).pitch q
  once : ∀ msg, (swsAfter ctx p₀ (before ++ [c])).2.count msg ≤ 1

/-- **The contract of the swscale backend.**

`before` is any history of frames, with any pictures and any results of
`sws_scale`. -/
theorem swscale_contract {ctx : ScalerCtx} {alloc context : Bool} {p₀ : SwsPriv}
    (h : swsOpen ctx alloc context = some p₀) (before : List SwsCall) (c : SwsCall) :
    SwsLaw ctx p₀ before c
      (swsProcess ctx (some (swsAfter ctx p₀ before).1) c.src c.dst c.rc) := by
  obtain ⟨fmt, hfmt, hp₀⟩ := swsOpen_spec h
  obtain ⟨layout, hdesc, hplanes⟩ := chromaToAVFmt_planes hfmt
  obtain ⟨hctx, -⟩ := swsAfter_frame (p := p₀) hdesc before
  have hexit := swsProcess_exit (p := (swsAfter ctx p₀ before).1) (c := c) hdesc
  obtain ⟨p', hpriv, hkept, -⟩ := hexit.frame
  set r := swsProcess ctx (some (swsAfter ctx p₀ before).1) c.src c.dst c.rc
  refine ⟨⟨hexit.status.1, p', hpriv, hkept.trans hctx⟩, hexit.status.2, hexit.refused, ?_, ?_,
    fun msg => ?_⟩
  · intro srcView dstView hviews
    obtain ⟨hsrc, hdst⟩ := zimgFrameViewsInit_eq hviews
    obtain ⟨src, -, hsrcSome, -⟩ := pictureViewInit_plane hsrc
    obtain ⟨dst, -, hdstSome, -⟩ := pictureViewInit_plane hdst
    rw [hsrcSome] at hsrc
    rw [hdstSome] at hdst
    rw [hexit.handed hviews]
    refine ⟨_, fmt, src, dst, rfl, hfmt, hsrcSome, hdstSome, ?_, rfl, rfl,
      swsPlanes_shows hdesc hplanes hsrc, swsPlanes_shows hdesc hplanes hdst,
      fun htyped => ?_, fun htyped => ?_⟩
    · rw [hctx, hp₀]
    · exact swsPlanes_inside hdesc hplanes htyped hsrc
    · exact swsPlanes_inside hdesc hplanes htyped hdst
  · intro subW subH swap srcView dstView hchroma hviews
    -- the swap that zimg is planned with is that of the descriptor
    have hswap : layout.uvPlanesSwapped = swap := by
      unfold chromaToZimg at hchroma
      rw [hdesc] at hchroma
      simp only [Option.ite_none_right_eq_some, Option.some.injEq, Prod.mk.injEq] at hchroma
      exact hchroma.2.2.2
    obtain ⟨hsrc, hdst⟩ := zimgFrameViewsInit_eq hviews
    rw [hexit.handed hviews, hswap]
    refine ⟨_, rfl, fun q => ?_⟩
    obtain ⟨hdata, hstride⟩ := swsPlanes_picturePlanes hchroma hsrc q
    obtain ⟨hdata', hstride'⟩ := swsPlanes_picturePlanes hchroma hdst q
    exact ⟨hdata, hstride, hdata', hstride'⟩
  · have hlog := (swsAfter_frame (p := p₀) hdesc (before ++ [c])).2 msg
    rw [hp₀] at hlog ⊢
    cases msg <;> simp [SwsPriv.unlogged] at hlog ⊢ <;> omega

/-- A 4x4 NV12 picture scaled to 8x8. -/
def nv12Ctx : ScalerCtx :=
  { srcW := 4, srcH := 4, srcCodedW := 4, srcCodedH := 4, srcXOffset := 0, srcYOffset := 0
    dstW := 8, dstH := 8, algo := 3, threadsPref := 0, pinCpus := false, minStripeLines := 0
    zerocopy := 1, srcZerocopy := 1, chroma := fourcc 'N' 'V' '1' '2' }

def nv12Picture (base w h : ℕ) : Picture :=
  { chroma := fourcc 'N' 'V' '1' '2', width := w, height := h, visibleWidth := w
    visibleHeight := h, planes := 2
    p := fun i => ⟨some (base + i * 4096), 32, h / (i + 1), 1⟩ }

/-- `sws_scale` returns `rc`. -/
def nv12Call (rc : ℤ) : SwsCall :=
  ⟨some (nv12Picture 8192 4 4), some (nv12Picture 32768 8 8), rc⟩

/-- The backend Open leaves; Spline36 has become Lanczos. -/
def nv12Priv : SwsPriv :=
  ⟨⟨4, 4, .nv12, 8, 8, .nv12, ⟨.lanczos, true, true, true⟩⟩, false, false⟩

/-- A second short frame is dropped without another message. -/
theorem swscale_contract_short :
    swsOpen nv12Ctx true true = some nv12Priv ∧
      (swsProcess nv12Ctx (some (swsAfter nv12Ctx nv12Priv [nv12Call 4]).1) (nv12Call 3).src
        (nv12Call 3).dst 3).status = .transient ∧
      SwsLaw nv12Ctx nv12Priv [nv12Call 4] (nv12Call 3) (swsProcess nv12Ctx
        (some (swsAfter nv12Ctx nv12Priv [nv12Call 4]).1) (nv12Call 3).src (nv12Call 3).dst 3) := by
  have hopen : swsOpen nv12Ctx true true = some nv12Priv := by decide +kernel
  exact ⟨hopen, by decide +kernel, swscale_contract hopen [nv12Call 4] (nv12Call 3)⟩

end AutoUpscale
