/-
Views into VLC pictures (`src/picture_view.h`).

`pictureViewInit` checks a picture against the chroma and the region a backend
was opened with and returns where each plane of the region starts.

- `picturePlaneViewInit_spec`: the region of an accepted plane lies inside its
  storage.
- `pictureViewInit_planar`: on a planar chroma every plane's pitch takes a full
  row of the region.
-/
import AutoUpscale.ScalerContext

namespace AutoUpscale

/-! ### Pictures -/

/-- `plane_t`; a NULL `p_pixels` is `none`. -/
structure VlcPlane where
  pixels : Option ℕ
  pitch : ℤ
  lines : ℤ
  pixelPitch : ℤ
  deriving DecidableEq, Repr

/-- The fields of `picture_t` a view reads: the format's chroma and sizes
(`unsigned`) and the planes. -/
structure Picture where
  chroma : ℕ
  width : ℕ
  height : ℕ
  visibleWidth : ℕ
  visibleHeight : ℕ
  planes : ℤ
  p : ℕ → VlcPlane

/-- `up_picture_plane_view_t` -/
structure PicturePlaneView where
  pixels : ℕ
  pitch : ℤ
  deriving DecidableEq, Repr

/-- `up_picture_view_t` -/
structure PictureView where
  plane : ℕ → PicturePlaneView
  planeCount : ℕ

/-- `up_picture_region_t` -/
structure PictureRegion where
  codedWidth : ℕ
  codedHeight : ℕ
  xOffset : ℕ
  yOffset : ℕ
  width : ℤ
  height : ℤ
  deriving DecidableEq, Repr

/-- `up_picture_plane_extent_t` -/
structure PlaneExtent where
  x : ℕ
  y : ℕ
  width : ℕ
  height : ℕ
  xBytes : ℕ
  rowBytes : ℕ
  deriving DecidableEq, Repr

/-- `up_picture_plane_geom_t` -/
structure PlaneGeom where
  xOffset : ℤ
  yOffset : ℤ
  width : ℤ
  height : ℤ
  xGroupPixels : ℕ
  xGroupBytes : ℕ
  yGroupPixels : ℕ
  pixelPitch : ℤ
  deriving DecidableEq, Repr

/-! ### Planes -/

/-- `up_picture_plane_extent` -/
def picturePlaneExtent (g : PlaneGeom) : PlaneExtent :=
  if g.xGroupPixels = 0 ∨ g.xGroupBytes = 0 ∨ g.yGroupPixels = 0 ∨ g.pixelPitch ≤ 0 ∨
      g.xGroupBytes % g.pixelPitch.toNat ≠ 0 then ⟨0, 0, 0, 0, 0, 0⟩
  else
    let xEnd := g.xOffset.toNat + g.width.toNat
    let yEnd := g.yOffset.toNat + g.height.toNat
    let x := g.xOffset.toNat / g.xGroupPixels
    let y := g.yOffset.toNat / g.yGroupPixels
    let xGroups := (xEnd + g.xGroupPixels - 1) / g.xGroupPixels - x
    { x := x
      y := y
      width := xGroups * g.xGroupBytes / g.pixelPitch.toNat
      height := (yEnd + g.yGroupPixels - 1) / g.yGroupPixels - y
      xBytes := x * g.xGroupBytes
      rowBytes := xGroups * g.xGroupBytes }

/-- `up_picture_plane_storage_ok` -/
def picturePlaneStorageOk (plane : VlcPlane) (pixelPitch : ℤ) : Bool :=
  if plane.pixels = none ∨ plane.pitch ≤ 0 ∨ plane.lines ≤ 0 then false
  else decide (plane.pixelPitch = pixelPitch)

/-- `up_picture_plane_extent_ok` -/
def picturePlaneExtentOk (plane : VlcPlane) (extent : PlaneExtent) : Bool :=
  if extent.xBytes > plane.pitch.toNat then false
  else if extent.rowBytes > plane.pitch.toNat - extent.xBytes then false
  else if extent.y > plane.lines.toNat then false
  else if extent.height > plane.lines.toNat - extent.y then false
  else decide (extent.width ≤ intMax) && decide (extent.height ≤ intMax) &&
    decide (extent.rowBytes ≤ intMax)

/-- `up_picture_plane_view_init` -/
def picturePlaneViewInit (plane : VlcPlane) (g : PlaneGeom) : Option PicturePlaneView :=
  match plane.pixels with
  | none => none
  | some pixels =>
    if picturePlaneStorageOk plane g.pixelPitch = false then none
    else
      let extent := picturePlaneExtent g
      if picturePlaneExtentOk plane extent = false then none
      else
        let rowOffset := extent.y * plane.pitch.toNat
        if rowOffset > sizeMax - extent.xBytes then none
        else some ⟨pixels + rowOffset + extent.xBytes, plane.pitch⟩

/-! ### Pictures -/

/-- `up_picture_declared_crop_ok` -/
def pictureDeclaredCropOk (pic : Picture) (region : PictureRegion) : Bool :=
  let xEnd := region.xOffset + region.width.toNat
  let yEnd := region.yOffset + region.height.toNat
  if xEnd > region.codedWidth ∨ yEnd > region.codedHeight then false
  else if pic.width < region.codedWidth ∨ pic.height < region.codedHeight then false
  else if pic.visibleWidth ≠ 0 ∧ region.width.toNat > pic.visibleWidth then false
  else decide (pic.visibleHeight = 0) || decide (region.height.toNat ≤ pic.visibleHeight)

/-- `up_picture_view_args_ok` on a picture and a region that exist. -/
def pictureViewArgsOk (pic : Picture) (chroma : ℕ) (region : PictureRegion) : Bool :=
  if region.width ≤ 0 ∨ region.height ≤ 0 then false
  else if pic.chroma ≠ chroma then false
  else if (region.xOffset : ℤ) > intMax ∨ (region.yOffset : ℤ) > intMax then false
  else pictureDeclaredCropOk pic region

/-- `up_picture_view_layout` -/
def pictureViewLayout (pic : Picture) (chroma : ℕ) : Option ChromaDescriptor :=
  match chromaDescriptor chroma with
  | none => none
  | some layout => if pic.planes < layout.planeCount then none else some layout

/-- The `geom` local of `up_picture_view_init` for plane `i`. -/
def ChromaDescriptor.planeGeom (layout : ChromaDescriptor) (region : PictureRegion) (i : ℕ) :
    PlaneGeom :=
  { xOffset := region.xOffset
    yOffset := region.yOffset
    width := region.width
    height := region.height
    xGroupPixels := layout.xGroupPixels.getD i 0
    xGroupBytes := layout.xGroupBytes.getD i 0
    yGroupPixels := layout.yGroupPixels.getD i 0
    pixelPitch := layout.pixelPitch.getD i 0 }

/-- `up_picture_view_init`; a NULL picture is `none`. -/
def pictureViewInit (pic : Option Picture) (expectedChroma : ℕ) (region : PictureRegion) :
    Option PictureView :=
  match pic with
  | none => none
  | some pic =>
    if pictureViewArgsOk pic expectedChroma region = false then none
    else
      match pictureViewLayout pic expectedChroma with
      | none => none
      | some layout =>
        let plane i := picturePlaneViewInit (pic.p i) (layout.planeGeom region i)
        if (List.range layout.planeCount).all fun i => (plane i).isSome then
          some
            { plane := fun i => if i < layout.planeCount then (plane i).getD ⟨0, 0⟩ else ⟨0, 0⟩
              planeCount := layout.planeCount }
        else none

/-- `up_scaler_src_region` -/
def scalerSrcRegion (ctx : ScalerCtx) : PictureRegion :=
  { codedWidth := ctx.srcCodedW
    codedHeight := ctx.srcCodedH
    xOffset := ctx.srcXOffset
    yOffset := ctx.srcYOffset
    width := ctx.srcW
    height := ctx.srcH }

/-- `up_scaler_dst_region` -/
def scalerDstRegion (ctx : ScalerCtx) : PictureRegion :=
  { codedWidth := ctx.dstW.toNat
    codedHeight := ctx.dstH.toNat
    xOffset := 0
    yOffset := 0
    width := ctx.dstW
    height := ctx.dstH }

/-! ### What an accepted view guarantees -/

/-- The region of an accepted plane starts where the extent says and stays
inside the plane's rows and lines. -/
theorem picturePlaneViewInit_spec {plane : VlcPlane} {g : PlaneGeom} {v : PicturePlaneView}
    (h : picturePlaneViewInit plane g = some v) :
    ∃ pixels, plane.pixels = some pixels ∧ v.pitch = plane.pitch ∧ 0 < plane.pitch ∧
      v.pixels = pixels + (picturePlaneExtent g).y * plane.pitch.toNat +
        (picturePlaneExtent g).xBytes ∧
      (picturePlaneExtent g).xBytes + (picturePlaneExtent g).rowBytes ≤ plane.pitch.toNat ∧
      (picturePlaneExtent g).y + (picturePlaneExtent g).height ≤ plane.lines.toNat := by
  unfold picturePlaneViewInit at h
  split at h
  · cases h
  rename_i pixels hpixels
  split at h
  · cases h
  rename_i hstorage
  simp only at h
  split at h
  · cases h
  rename_i hextent
  split at h
  · cases h
  obtain rfl := Option.some.inj h
  have hpos : 0 < plane.pitch := by
    unfold picturePlaneStorageOk at hstorage
    split at hstorage
    · exact absurd rfl hstorage
    · omega
  unfold picturePlaneExtentOk at hextent
  repeat' split at hextent
  all_goals first | exact absurd rfl hextent | skip
  exact ⟨pixels, hpixels, rfl, hpos, rfl, by omega, by omega⟩

theorem pictureViewInit_plane {pic : Option Picture} {chroma : ℕ} {region : PictureRegion}
    {v : PictureView} (h : pictureViewInit pic chroma region = some v) :
    ∃ pic' layout, pic = some pic' ∧ chromaDescriptor chroma = some layout ∧
      v.planeCount = layout.planeCount ∧ ∀ i < layout.planeCount,
        picturePlaneViewInit (pic'.p i) (layout.planeGeom region i) = some (v.plane i) := by
  unfold pictureViewInit at h
  split at h
  · cases h
  rename_i pic
  split at h
  · cases h
  split at h
  · cases h
  rename_i layout hlayout
  simp only at h
  split at h
  · rename_i hall
    obtain rfl := Option.some.inj h
    have hdesc : chromaDescriptor chroma = some layout := by
      unfold pictureViewLayout at hlayout
      split at hlayout
      · cases hlayout
      · rename_i hd
        split at hlayout
        · cases hlayout
        · rw [hd, hlayout]
    refine ⟨pic, layout, rfl, hdesc, rfl, fun i hi => ?_⟩
    obtain ⟨w, hw⟩ := Option.isSome_iff_exists.mp
      (List.all_eq_true.mp hall i (List.mem_range.mpr hi))
    simp only [if_pos hi, hw, Option.getD_some]
  · cases h

/-- The planes of a planar chroma: one byte a sample, luma first, both chroma
planes subsampled alike. -/
theorem chromaToZimg_planes {c subW subH : ℕ} {swap : Bool}
    (h : chromaToZimg c = some (subW, subH, swap)) :
    ∃ layout, chromaDescriptor c = some layout ∧ layout.planeCount = 3 ∧ ∀ i < 3,
      layout.xGroupPixels.getD i 0 = 2 ^ (if i = 0 then 0 else subW) ∧
      layout.yGroupPixels.getD i 0 = 2 ^ (if i = 0 then 0 else subH) ∧
      layout.xGroupBytes.getD i 0 = 1 ∧ layout.pixelPitch.getD i 0 = 1 := by
  unfold chromaToZimg at h
  split at h
  · rename_i desc hdesc
    have hmem : desc ∈ chromaDescriptors := List.mem_of_find?_eq_some hdesc
    have htable : ∀ d ∈ chromaDescriptors, d.layout.isPlanar = true → d.planeCount = 3 ∧
        ∀ i < 3, d.xGroupPixels.getD i 0 = 2 ^ (if i = 0 then 0 else d.subW) ∧
          d.yGroupPixels.getD i 0 = 2 ^ (if i = 0 then 0 else d.subH) ∧
          d.xGroupBytes.getD i 0 = 1 ∧ d.pixelPitch.getD i 0 = 1 := by
      decide
    split at h
    · rename_i hplanar
      obtain ⟨rfl, rfl, rfl⟩ : desc.subW = subW ∧ desc.subH = subH ∧
          desc.uvPlanesSwapped = swap := by simpa using h
      exact ⟨desc, hdesc, htable desc hmem hplanar⟩
    · cases h
  · cases h

/-- A window of `w` samples meets at least `w / g` groups of `g`. -/
theorem groups_le {x w g : ℕ} (hg : 0 < g) : w / g ≤ (x + w + g - 1) / g - x / g := by
  have hadd : x / g + w / g ≤ (x + w) / g := Nat.div_add_div_le_add_div
  have hceil : (x + w) / g ≤ (x + w + g - 1) / g := Nat.div_le_div_right (by omega)
  omega

/-- On a planar chroma a plane's pitch takes every row of the region. -/
theorem pictureViewInit_planar {pic : Option Picture} {c subW subH : ℕ} {swap : Bool}
    {region : PictureRegion} {v : PictureView}
    (hc : chromaToZimg c = some (subW, subH, swap))
    (h : pictureViewInit pic c region = some v) {i : ℕ} (hi : i < 3) :
    region.width.toNat / 2 ^ (if i = 0 then 0 else subW) ≤ (v.plane i).pitch.toNat := by
  obtain ⟨pic', layout, -, hdesc, -, hplane⟩ := pictureViewInit_plane h
  obtain ⟨layout', hdesc', hcount, hgroups⟩ := chromaToZimg_planes hc
  obtain rfl : layout' = layout := Option.some.inj (hdesc'.symm.trans hdesc)
  obtain ⟨hx, hy, hbytes, hpitch⟩ := hgroups i hi
  obtain ⟨-, -, hp, -, -, hrow, -⟩ := picturePlaneViewInit_spec (hplane i (hcount ▸ hi))
  have hgw : 0 < 2 ^ (if i = 0 then 0 else subW) := Nat.two_pow_pos _
  have hgh : 0 < 2 ^ (if i = 0 then 0 else subH) := Nat.two_pow_pos _
  generalize 2 ^ (if i = 0 then 0 else subW) = gw at hx hgw ⊢
  generalize 2 ^ (if i = 0 then 0 else subH) = gh at hy hgh
  have hext : (picturePlaneExtent (layout'.planeGeom region i)).rowBytes =
      (region.xOffset + region.width.toNat + gw - 1) / gw - region.xOffset / gw := by
    unfold picturePlaneExtent ChromaDescriptor.planeGeom
    simp only [hx, hy, hbytes, hpitch]
    rw [if_neg (by simp [hgw.ne', hgh.ne']), Nat.mul_one, Int.toNat_natCast]
  have hle := groups_le (x := region.xOffset) (w := region.width.toNat) hgw
  rw [hp]
  omega

end AutoUpscale
