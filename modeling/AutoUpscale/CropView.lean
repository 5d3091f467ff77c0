/-
The negotiated crop seen through the picture views: `ResolveSourceCrop`, the
even alignment, the scaler's source region and the per-plane extents together.

- `alignCropEven_within`: the aligned crop stays inside the requested one.
- `planeExtent_cosited`: on every plane the crop falls on whole groups.
- `negotiatedCrop_viewable`: every covering picture whose visible size takes the
  crop has a view of it, co-sited on every plane.
-/
import AutoUpscale.PictureContract

namespace AutoUpscale

/-! ### The aligned crop stays inside the requested one -/

theorem alignAxisEven_within (dim : ℤ) (off : ℕ) :
    ∃ dim' off', alignAxisEven (some dim) (some off) = (some dim', some off') ∧
      (0 < dim' → off' + dim' ≤ off + dim) := by
  unfold alignAxisEven
  dsimp only
  split_ifs with h1 h2 h3
  · exact ⟨_, _, rfl, by omega⟩
  · exact ⟨_, _, rfl, by omega⟩
  · refine ⟨_, _, rfl, fun hpos => ?_⟩
    have hle := Nat.mod_le (off + dim.toNat) 2
    omega
  · exact ⟨_, _, rfl, by omega⟩

theorem alignCropEven_within (c : ℕ) (w h : ℤ) (x y : ℕ) :
    ∃ w' h' x' y', alignCropEven c ⟨some w, some h, some x, some y⟩ =
        ⟨some w', some h', some x', some y'⟩ ∧
      (0 < w' → x' + w' ≤ x + w) ∧ (0 < h' → y' + h' ≤ y + h) := by
  obtain ⟨w', x', hw, hwin⟩ := alignAxisEven_within w x
  obtain ⟨h', y', hh, hhin⟩ := alignAxisEven_within h y
  unfold alignCropEven
  cases chromaSubsample c with
  | none => exact ⟨w, h, x, y, rfl, fun _ => le_rfl, fun _ => le_rfl⟩
  | some sub =>
    obtain ⟨subW, subH⟩ := sub
    dsimp only
    rw [hw, hh]
    split_ifs
    · exact ⟨w', h', x', y', rfl, hwin, hhin⟩
    · exact ⟨w', h, x', y, rfl, hwin, fun _ => le_rfl⟩
    · exact ⟨w, h', x, y', rfl, fun _ => le_rfl, hhin⟩
    · exact ⟨w, h, x, y, rfl, fun _ => le_rfl, fun _ => le_rfl⟩

/-- A format a crop can be negotiated from: a supported chroma and a declared
visible window inside the coded size. -/
structure FormatNegotiable (fmt : VideoFormat) : Prop where
  visibleWidth_ne : fmt.visibleWidth ≠ 0
  visibleHeight_ne : fmt.visibleHeight ≠ 0
  width_le : fmt.xOffset + fmt.visibleWidth ≤ fmt.width
  height_le : fmt.yOffset + fmt.visibleHeight ≤ fmt.height
  codedWidth_le : (fmt.width : ℤ) ≤ intMax
  codedHeight_le : (fmt.height : ℤ) ≤ intMax

theorem resolveSourceCrop_within {fmt : VideoFormat} (hfmt : FormatNegotiable fmt) :
    (0 < (resolveSourceCrop fmt).dims.width →
        (resolveSourceCrop fmt).xOffset + (resolveSourceCrop fmt).dims.width ≤ fmt.width) ∧
      (0 < (resolveSourceCrop fmt).dims.height →
        (resolveSourceCrop fmt).yOffset + (resolveSourceCrop fmt).dims.height ≤ fmt.height) := by
  obtain ⟨hvw, hvh, hw, hh, hcw, hch⟩ := hfmt
  obtain ⟨w', h', x', y', hcrop, hwin, hhin⟩ := alignCropEven_within fmt.chroma
    fmt.visibleWidth fmt.visibleHeight fmt.xOffset fmt.yOffset
  unfold resolveSourceCrop
  simp only [if_pos hvw, if_pos hvh]
  rw [if_pos (by omega), if_pos (by omega)]
  simp only [hcrop, Option.getD_some]
  exact ⟨fun hpos => (hwin hpos).trans (by omega), fun hpos => (hhin hpos).trans (by omega)⟩

/-! ### Planes of a cosited crop -/

/-- A descriptor's plane: whole bytes a pixel, and a group of two only on an
axis the chroma subsamples. -/
theorem chromaDescriptors_plane : ∀ desc ∈ chromaDescriptors, ∀ i < desc.planeCount,
    0 < desc.xGroupBytes.getD i 0 ∧ 0 < desc.pixelPitch.getD i 0 ∧
      desc.xGroupBytes.getD i 0 % desc.pixelPitch.getD i 0 = 0 ∧
      (desc.xGroupPixels.getD i 0 = 1 ∨
        desc.xGroupPixels.getD i 0 = 2 ∧ desc.layout.hasY = true ∧ desc.subW ≠ 0) ∧
      (desc.yGroupPixels.getD i 0 = 1 ∨
        desc.yGroupPixels.getD i 0 = 2 ∧ desc.layout.hasY = true ∧ desc.subH ≠ 0) := by
  decide

/-- A window on whole groups covers exactly its own groups. -/
theorem groups_exact {off len gp : ℕ} (hg : 0 < gp) (hoff : off % gp = 0)
    (hlen : len % gp = 0) : (off + len + gp - 1) / gp - off / gp = len / gp := by
  obtain ⟨a, rfl⟩ := Nat.dvd_of_mod_eq_zero hoff
  obtain ⟨b, rfl⟩ := Nat.dvd_of_mod_eq_zero hlen
  have hsum : gp * a + gp * b + gp - 1 = gp - 1 + gp * (a + b) := by
    rw [Nat.mul_add]
    omega
  rw [hsum, Nat.add_mul_div_left _ _ hg, Nat.div_eq_of_lt (by omega), Nat.zero_add,
    Nat.mul_div_cancel_left _ hg, Nat.mul_div_cancel_left _ hg, Nat.add_sub_cancel_left]

/-- The crop of a region falls on whole groups of plane `i`: the plane's origin
and extent, in groups, times the group size are the luma offset and extent. -/
structure Cosited (layout : ChromaDescriptor) (region : PictureRegion) (i : ℕ) : Prop where
  x : (picturePlaneExtent (layout.planeGeom region i)).x * layout.xGroupPixels.getD i 0 =
    region.xOffset
  y : (picturePlaneExtent (layout.planeGeom region i)).y * layout.yGroupPixels.getD i 0 =
    region.yOffset
  /-- Rows start at the first byte of a group and end at the last one of a group. -/
  width : ∃ groups, (picturePlaneExtent (layout.planeGeom region i)).rowBytes =
      groups * layout.xGroupBytes.getD i 0 ∧
    ((groups * layout.xGroupPixels.getD i 0 : ℕ) : ℤ) = region.width
  xBytes : (picturePlaneExtent (layout.planeGeom region i)).xBytes =
    (picturePlaneExtent (layout.planeGeom region i)).x * layout.xGroupBytes.getD i 0
  height : (((picturePlaneExtent (layout.planeGeom region i)).height *
    layout.yGroupPixels.getD i 0 : ℕ) : ℤ) = region.height

/-- The extent of a plane whose groups divide the region. -/
theorem picturePlaneExtent_of_groups {layout : ChromaDescriptor} (region : PictureRegion) {i : ℕ}
    (hlayout : layout ∈ chromaDescriptors) (hi : i < layout.planeCount)
    (hx : region.xOffset % layout.xGroupPixels.getD i 0 = 0)
    (hw : region.width.toNat % layout.xGroupPixels.getD i 0 = 0)
    (hy : region.yOffset % layout.yGroupPixels.getD i 0 = 0)
    (hh : region.height.toNat % layout.yGroupPixels.getD i 0 = 0) :
    picturePlaneExtent (layout.planeGeom region i) =
      { x := region.xOffset / layout.xGroupPixels.getD i 0
        y := region.yOffset / layout.yGroupPixels.getD i 0
        width := region.width.toNat / layout.xGroupPixels.getD i 0 *
          layout.xGroupBytes.getD i 0 / layout.pixelPitch.getD i 0
        height := region.height.toNat / layout.yGroupPixels.getD i 0
        xBytes := region.xOffset / layout.xGroupPixels.getD i 0 * layout.xGroupBytes.getD i 0
        rowBytes := region.width.toNat / layout.xGroupPixels.getD i 0 *
          layout.xGroupBytes.getD i 0 } := by
  obtain ⟨hgb, hpp, hmod, hgx, hgy⟩ := chromaDescriptors_plane layout hlayout i hi
  unfold picturePlaneExtent ChromaDescriptor.planeGeom
  dsimp only
  simp only [Int.toNat_natCast]
  rw [if_neg (by omega), groups_exact (by omega) hx hw, groups_exact (by omega) hy hh]

/-- **A planned crop is cosited on every plane.** -/
theorem planeExtent_cosited {ctx : ScalerCtx} {layout : ChromaDescriptor} (h : OpenPlanned ctx)
    (hlayout : chromaDescriptor ctx.chroma = some layout) {i : ℕ} (hi : i < layout.planeCount) :
    Cosited layout (scalerSrcRegion ctx) i := by
  have hmem := chromaDescriptor_mem hlayout
  obtain ⟨hgb, hpp, hmod, hgx, hgy⟩ := chromaDescriptors_plane layout hmem i hi
  have hsub : layout.layout.hasY = true →
      chromaSubsample ctx.chroma = some (layout.subW, layout.subH) := by
    intro hasY
    unfold chromaSubsample
    rw [hlayout]
    exact if_pos hasY
  have hwpos := h.target.srcW_pos
  have hhpos := h.target.srcH_pos
  -- on each axis the group is one pixel, or two on an axis the crop is even on
  have hxdiv : ctx.srcXOffset % layout.xGroupPixels.getD i 0 = 0 ∧
      ctx.srcW.toNat % layout.xGroupPixels.getD i 0 = 0 := by
    obtain h1 | ⟨h2, hasY, hne⟩ := hgx
    · rw [h1]
      omega
    · have hoff := h.xOffset_even _ _ (hsub hasY) hne
      have hlen := h.srcW_even _ _ (hsub hasY) hne
      rw [h2]
      omega
  have hydiv : ctx.srcYOffset % layout.yGroupPixels.getD i 0 = 0 ∧
      ctx.srcH.toNat % layout.yGroupPixels.getD i 0 = 0 := by
    obtain h1 | ⟨h2, hasY, hne⟩ := hgy
    · rw [h1]
      omega
    · have hoff := h.yOffset_even _ _ (hsub hasY) hne
      have hlen := h.srcH_even _ _ (hsub hasY) hne
      rw [h2]
      omega
  have hextent := picturePlaneExtent_of_groups (scalerSrcRegion ctx) hmem hi hxdiv.1
    hxdiv.2 hydiv.1 hydiv.2
  refine
    { x := ?_
      y := ?_
      width := ⟨ctx.srcW.toNat / layout.xGroupPixels.getD i 0, ?_, ?_⟩
      xBytes := ?_
      height := ?_ }
  · rw [hextent]
    exact Nat.div_mul_cancel (Nat.dvd_of_mod_eq_zero hxdiv.1)
  · rw [hextent]
    exact Nat.div_mul_cancel (Nat.dvd_of_mod_eq_zero hydiv.1)
  · rw [hextent]
    rfl
  · rw [Nat.div_mul_cancel (Nat.dvd_of_mod_eq_zero hxdiv.2)]
    exact Int.toNat_of_nonneg hwpos.le
  · rw [hextent]
  · rw [hextent]
    change ((ctx.srcH.toNat / layout.yGroupPixels.getD i 0 * layout.yGroupPixels.getD i 0 : ℕ) : ℤ)
      = ctx.srcH
    rw [Nat.div_mul_cancel (Nat.dvd_of_mod_eq_zero hydiv.2)]
    exact Int.toNat_of_nonneg hhpos.le

/-! ### Every covering picture has a view of the crop -/

/-- A picture of the negotiated chroma whose declared size and planes cover the
coded size, with the descriptor's pixel pitch. -/
structure PictureCovers (pic : Picture) (fmt : VideoFormat) (layout : ChromaDescriptor) :
    Prop where
  typed : pic.Typed
  chroma : pic.chroma = fmt.chroma
  width_le : fmt.width ≤ pic.width
  height_le : fmt.height ≤ pic.height
  planes : (layout.planeCount : ℤ) ≤ pic.planes
  pixels : ∀ i < layout.planeCount, (pic.p i).pixels ≠ none
  pixelPitch : ∀ i < layout.planeCount, (pic.p i).pixelPitch = layout.pixelPitch.getD i 0
  pitch : ∀ i < layout.planeCount,
    ((fmt.width / layout.xGroupPixels.getD i 0 * layout.xGroupBytes.getD i 0 : ℕ) : ℤ) ≤
      (pic.p i).pitch
  lines : ∀ i < layout.planeCount,
    ((fmt.height / layout.yGroupPixels.getD i 0 : ℕ) : ℤ) ≤ (pic.p i).lines

/-- The picture's visible size, where it declares one, takes the crop. -/
def VisibleTakes (pic : Picture) (ctx : ScalerCtx) : Prop :=
  (pic.visibleWidth = 0 ∨ ctx.srcW ≤ pic.visibleWidth) ∧
    (pic.visibleHeight = 0 ∨ ctx.srcH ≤ pic.visibleHeight)

/-- A planned context holds the resolved crop of its format. -/
theorem planOpen_eq {fmt : VideoFormat} {cfg : Config} {cores : ℤ} {ctx : ScalerCtx}
    (h : planOpen fmt cfg cores = some ctx) :
    ∃ target, ctx = configureScaler fmt (clampConfig cfg) (resolveSourceCrop fmt) target := by
  unfold planOpen at h
  dsimp only at h
  split_ifs at h
  exact ⟨_, (Option.some.inj h).symm⟩

/-- On a covering picture no plane of a planned crop is rejected. -/
theorem plane_not_rejected {fmt : VideoFormat} {ctx : ScalerCtx} {layout : ChromaDescriptor}
    {pic : Picture} (hopen : OpenPlanned ctx) (hlayout : chromaDescriptor ctx.chroma = some layout)
    (hpic : PictureCovers pic fmt layout) (hx : ctx.srcXOffset + ctx.srcW ≤ fmt.width)
    (hy : ctx.srcYOffset + ctx.srcH ≤ fmt.height) {i : ℕ} (hi : i < layout.planeCount) :
    ¬ PlaneRejected (pic.p i) (layout.planeGeom (scalerSrcRegion ctx) i) := by
  have hmem := chromaDescriptor_mem hlayout
  obtain ⟨hgb, -, -, hgx, hgy⟩ := chromaDescriptors_plane layout hmem i hi
  obtain ⟨hcx, hcy, ⟨groups, hrow, hgroups⟩, hxb, hch⟩ := planeExtent_cosited hopen hlayout hi
  have hwpos := hopen.target.srcW_pos
  have hhpos := hopen.target.srcH_pos
  have hpitch := hpic.pitch i hi
  have hlines := hpic.lines i hi
  have hgxpos : 0 < layout.xGroupPixels.getD i 0 := by omega
  have hgypos : 0 < layout.yGroupPixels.getD i 0 := by omega
  unfold PlaneRejected
  generalize picturePlaneExtent (layout.planeGeom (scalerSrcRegion ctx) i) = extent at *
  change ((groups * _ : ℕ) : ℤ) = ctx.srcW at hgroups
  change ((extent.height * _ : ℕ) : ℤ) = ctx.srcH at hch
  change extent.x * _ = ctx.srcXOffset at hcx
  change extent.y * _ = ctx.srcYOffset at hcy
  generalize layout.xGroupPixels.getD i 0 = gx at *
  generalize layout.yGroupPixels.getD i 0 = gy at *
  generalize layout.xGroupBytes.getD i 0 = gb at *
  -- the crop ends at a whole group, so it ends inside the floored plane
  have hxend : extent.x + groups ≤ fmt.width / gx := by
    rw [Nat.le_div_iff_mul_le hgxpos, Nat.add_mul]
    omega
  have hyend : extent.y + extent.height ≤ fmt.height / gy := by
    rw [Nat.le_div_iff_mul_le hgypos, Nat.add_mul]
    omega
  have hbytes : extent.xBytes + extent.rowBytes ≤ fmt.width / gx * gb := by
    rw [hxb, hrow, ← Nat.add_mul]
    exact Nat.mul_le_mul_right gb hxend
  have hgroupsPos : 0 < groups := by
    obtain h0 | hpos := Nat.eq_zero_or_pos groups
    · rw [h0, Nat.zero_mul] at hgroups
      omega
    · exact hpos
  have hheightPos : 0 < extent.height := by
    obtain h0 | hpos := Nat.eq_zero_or_pos extent.height
    · rw [h0, Nat.zero_mul] at hch
      omega
    · exact hpos
  have hrowPos : 0 < extent.rowBytes := by
    rw [hrow]
    exact Nat.mul_pos hgroupsPos hgb
  rintro (h | h | h | h | h | h)
  · exact hpic.pixels i hi h
  · omega
  · omega
  · exact h (hpic.pixelPitch i hi)
  · omega
  · omega

/-- **A negotiated crop is viewable and cosited.**  On a planned format every
covering picture has a view of the scaler's source region exactly where its
declared visible size takes the crop, and on every plane the crop falls on
whole groups. -/
theorem negotiatedCrop_viewable {fmt : VideoFormat} {cfg : Config} {cores : ℤ} {ctx : ScalerCtx}
    {layout : ChromaDescriptor} {pic : Picture} (hfmt : FormatNegotiable fmt)
    (hlayout : chromaDescriptor fmt.chroma = some layout)
    (hplan : planOpen fmt cfg cores = some ctx) (hpic : PictureCovers pic fmt layout) :
    ((∃ view, pictureViewInit (some pic) fmt.chroma (scalerSrcRegion ctx) = some view) ↔
        VisibleTakes pic ctx) ∧
      ∀ i < layout.planeCount, Cosited layout (scalerSrcRegion ctx) i := by
  have hopen := planOpen_spec hplan
  obtain ⟨target, hctx⟩ := planOpen_eq hplan
  have hchroma : ctx.chroma = fmt.chroma := by rw [hctx]; rfl
  have hlayout' : chromaDescriptor ctx.chroma = some layout := by rw [hchroma]; exact hlayout
  have hwpos := hopen.target.srcW_pos
  have hhpos := hopen.target.srcH_pos
  have hcoded : ctx.srcCodedW = fmt.width ∧ ctx.srcCodedH = fmt.height := by
    rw [hctx]
    exact ⟨rfl, rfl⟩
  have hwithin : ctx.srcXOffset + ctx.srcW ≤ fmt.width ∧
      ctx.srcYOffset + ctx.srcH ≤ fmt.height := by
    obtain ⟨hw, hh⟩ := resolveSourceCrop_within hfmt
    rw [hctx] at hwpos hhpos ⊢
    exact ⟨hw hwpos, hh hhpos⟩
  -- the crop itself passes, so the visible size alone decides
  refine ⟨?_, fun i hi => planeExtent_cosited hopen hlayout' hi⟩
  have hviewable : (∃ view, pictureViewInit (some pic) fmt.chroma (scalerSrcRegion ctx) =
      some view) ↔ ¬ ViewRejected pic fmt.chroma (scalerSrcRegion ctx) := by
    rw [← pictureViewInit_eq_none_iff hpic.typed, ← Option.ne_none_iff_exists']
  rw [hviewable]
  have hcw := hfmt.codedWidth_le
  have hch := hfmt.codedHeight_le
  unfold ViewRejected VisibleTakes
  change ¬ (_ ∨ _ ∨ (ctx.srcW ≤ 0 ∨ ctx.srcH ≤ 0) ∨
    ((ctx.srcXOffset : ℤ) > intMax ∨ (ctx.srcYOffset : ℤ) > intMax) ∨
    (ctx.srcXOffset + ctx.srcW > ctx.srcCodedW ∨ ctx.srcYOffset + ctx.srcH > ctx.srcCodedH) ∨
    (pic.width < ctx.srcCodedW ∨ pic.height < ctx.srcCodedH) ∨
    (pic.visibleWidth ≠ 0 ∧ ctx.srcW > pic.visibleWidth) ∨
    (pic.visibleHeight ≠ 0 ∧ ctx.srcH > pic.visibleHeight) ∨ _) ↔ _
  constructor
  · intro hok
    push Not at hok
    obtain ⟨-, -, -, -, -, -, hvw, hvh, -⟩ := hok
    exact ⟨or_iff_not_imp_left.mpr hvw, or_iff_not_imp_left.mpr hvh⟩
  · -- each reason to reject fails on a covering picture
    rintro ⟨hvw, hvh⟩ (h | h | h | h | h | h | h | h | ⟨layout', hl, hplane⟩)
    · rw [hlayout] at h
      cases h
    · exact h hpic.chroma
    · omega
    · omega
    · omega
    · have hw := hpic.width_le
      have hh := hpic.height_le
      omega
    · omega
    · omega
    · obtain rfl := Option.some.inj (hlayout.symm.trans hl)
      obtain hplanes | ⟨i, hi, hrej⟩ := hplane
      · have := hpic.planes
        omega
      · exact plane_not_rejected hopen hlayout' hpic hwithin.1 hwithin.2 hi hrej

/-- A 320×240 I420 stream that shows 317×238 of it from (1, 1). -/
def croppedFormat : VideoFormat := ⟨fourcc 'I' '4' '2' '0', 320, 240, 317, 238, 1, 1⟩

def croppedConfig : Config := ⟨0, 2, 720, 0, 0, 0, 0, 1, 1, 0⟩

/-- The context Open plans for it: the 316×236 crop at (2, 2). -/
def croppedCtx : ScalerCtx :=
  ⟨316, 236, 320, 240, 2, 2, 964, 720, 2, 0, false, 0, 1, 1, fourcc 'I' '4' '2' '0'⟩

theorem croppedFormat_negotiable : FormatNegotiable croppedFormat :=
  ⟨by decide, by decide, by decide, by decide, by decide, by decide⟩

def croppedLayout : ChromaDescriptor :=
  ⟨fourcc 'I' '4' '2' '0', .yuv420p, 3, 1, 1, false,
    [1, 2, 2, 0], [1, 1, 1, 0], [1, 2, 2, 0], [1, 1, 1, 0]⟩

theorem croppedLayout_eq : chromaDescriptor croppedFormat.chroma = some croppedLayout := by
  decide +kernel

theorem croppedCtx_planned : planOpen croppedFormat croppedConfig 8 = some croppedCtx := by
  decide +kernel

/-- A picture of the stream that declares `visibleWidth` visible columns. -/
def croppedPicture (visibleWidth : ℕ) : Picture :=
  { chroma := fourcc 'I' '4' '2' '0'
    width := 320
    height := 240
    visibleWidth := visibleWidth
    visibleHeight := 238
    planes := 3
    p := fun i => if i = 0 then ⟨some 4096, 320, 240, 1⟩ else ⟨some 131072, 160, 120, 1⟩ }

theorem croppedPicture_covers {visibleWidth : ℕ} (h : IsUnsigned visibleWidth) :
    PictureCovers (croppedPicture visibleWidth) croppedFormat croppedLayout where
  typed :=
    { width := (by decide : IsUnsigned 320)
      height := (by decide : IsUnsigned 240)
      visibleWidth := h
      visibleHeight := (by decide : IsUnsigned 238)
      planes := (by decide : IsInt 3)
      plane := fun i => by
        unfold croppedPicture
        dsimp only
        split_ifs
        · exact ⟨by decide, by decide, by decide⟩
        · exact ⟨by decide, by decide, by decide⟩ }
  chroma := rfl
  width_le := le_rfl
  height_le := le_rfl
  planes := le_rfl
  pixels := (by decide : ∀ i < 3, ((croppedPicture 0).p i).pixels ≠ none)
  pixelPitch := (by decide : ∀ i < 3, ((croppedPicture 0).p i).pixelPitch =
    croppedLayout.pixelPitch.getD i 0)
  pitch := (by decide : ∀ i < 3, ((320 / croppedLayout.xGroupPixels.getD i 0 *
    croppedLayout.xGroupBytes.getD i 0 : ℕ) : ℤ) ≤ ((croppedPicture 0).p i).pitch)
  lines := (by decide : ∀ i < 3, ((240 / croppedLayout.yGroupPixels.getD i 0 : ℕ) : ℤ) ≤
    ((croppedPicture 0).p i).lines)

theorem negotiatedCrop_viewable_cropped :
    (∃ view, pictureViewInit (some (croppedPicture 317)) croppedFormat.chroma
        (scalerSrcRegion croppedCtx) = some view) ∧
      ∀ i < 3, Cosited croppedLayout (scalerSrcRegion croppedCtx) i := by
  obtain ⟨hview, hcosited⟩ := negotiatedCrop_viewable croppedFormat_negotiable croppedLayout_eq
    croppedCtx_planned (croppedPicture_covers (by decide : IsUnsigned 317))
  exact ⟨hview.mpr ⟨.inr (by decide), .inr (by decide)⟩, hcosited⟩

/-- Covering the coded size is not enough: a picture that declares one visible
column has no view of the crop. -/
theorem covering_picture_not_viewable :
    ¬ ∀ (fmt : VideoFormat) (cfg : Config) (cores : ℤ) (ctx : ScalerCtx)
      (layout : ChromaDescriptor) (pic : Picture), FormatNegotiable fmt →
      chromaDescriptor fmt.chroma = some layout → planOpen fmt cfg cores = some ctx →
      PictureCovers pic fmt layout →
      (∃ view, pictureViewInit (some pic) fmt.chroma (scalerSrcRegion ctx) = some view) ∧
        ∀ i < layout.planeCount, Cosited layout (scalerSrcRegion ctx) i := by
  intro hall
  obtain ⟨⟨view, hview⟩, -⟩ := hall croppedFormat croppedConfig 8 croppedCtx croppedLayout
    (croppedPicture 1) croppedFormat_negotiable croppedLayout_eq croppedCtx_planned
    (croppedPicture_covers (by decide))
  have hargs : pictureViewArgsOk (croppedPicture 1) croppedFormat.chroma
      (scalerSrcRegion croppedCtx) = false := by decide
  unfold pictureViewInit at hview
  dsimp only at hview
  rw [if_pos hargs] at hview
  cases hview

end AutoUpscale
