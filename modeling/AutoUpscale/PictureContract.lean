/-
Picture views as they are compiled: soundness, completeness, and the state of
the output view.

`pictureViewInitSize` is `up_picture_view_init` with every `size_t` operation
checked and with the output view it clears and fills; `pictureViewInit` of
`PictureView` is its value.

- `pictureViewInitSize_eq`: on C-typed arguments nothing wraps.
- `pictureViewInit_eq_none_iff`: exactly which arguments are rejected.
- `pictureViewInit_contract`: every byte of an accepted view lies in the
  storage of its plane.
-/
import AutoUpscale.MachineInt
import AutoUpscale.PictureView

namespace AutoUpscale

open MachineInt MachineInt.WordType

/-! ### C-typed arguments -/

/-- The value of an `int`. -/
def IsInt (v : ℤ) : Prop := -2147483648 ≤ v ∧ v ≤ intMax

/-- The value of an `unsigned`. -/
def IsUnsigned (v : ℕ) : Prop := v < 2 ^ 32

instance (v : ℤ) : Decidable (IsInt v) := inferInstanceAs (Decidable (_ ∧ _))

instance (v : ℕ) : Decidable (IsUnsigned v) := inferInstanceAs (Decidable (_ < _))

/-- The sizes of a `plane_t` are `int`s. -/
structure VlcPlane.Typed (plane : VlcPlane) : Prop where
  pitch : IsInt plane.pitch
  lines : IsInt plane.lines
  pixelPitch : IsInt plane.pixelPitch

/-- The sizes of a `picture_t` are `unsigned`s and `int`s. -/
structure Picture.Typed (pic : Picture) : Prop where
  width : IsUnsigned pic.width
  height : IsUnsigned pic.height
  visibleWidth : IsUnsigned pic.visibleWidth
  visibleHeight : IsUnsigned pic.visibleHeight
  planes : IsInt pic.planes
  plane : ∀ i, (pic.p i).Typed

/-- The sizes of an `up_picture_region_t` are `unsigned`s and `int`s. -/
structure PictureRegion.Typed (region : PictureRegion) : Prop where
  codedWidth : IsUnsigned region.codedWidth
  codedHeight : IsUnsigned region.codedHeight
  xOffset : IsUnsigned region.xOffset
  yOffset : IsUnsigned region.yOffset
  width : IsInt region.width
  height : IsInt region.height

/-! ### The view in machine arithmetic -/

/-- `size_t` -/
def sizeT : WordType := ⟨64⟩

/-- `up_picture_plane_extent` -/
def picturePlaneExtentSize (g : PlaneGeom) : Option PlaneExtent :=
  if g.xGroupPixels = 0 ∨ g.xGroupBytes = 0 ∨ g.yGroupPixels = 0 ∨ g.pixelPitch ≤ 0 ∨
      g.xGroupBytes % g.pixelPitch.toNat ≠ 0 then pure ⟨0, 0, 0, 0, 0, 0⟩
  else do
    let xOffset ← sizeT.ofInt g.xOffset
    let yOffset ← sizeT.ofInt g.yOffset
    let xEnd ← sizeT.add xOffset (← sizeT.ofInt g.width)
    let yEnd ← sizeT.add yOffset (← sizeT.ofInt g.height)
    let x ← sizeT.div xOffset g.xGroupPixels
    let y ← sizeT.div yOffset g.yGroupPixels
    let xCeil ← sizeT.div (← sizeT.sub (← sizeT.add xEnd g.xGroupPixels) 1) g.xGroupPixels
    let xGroups ← sizeT.sub xCeil x
    let width ← sizeT.div (← sizeT.mul xGroups g.xGroupBytes) (← sizeT.ofInt g.pixelPitch)
    let yCeil ← sizeT.div (← sizeT.sub (← sizeT.add yEnd g.yGroupPixels) 1) g.yGroupPixels
    let height ← sizeT.sub yCeil y
    let xBytes ← sizeT.mul x g.xGroupBytes
    let rowBytes ← sizeT.mul xGroups g.xGroupBytes
    pure ⟨x, y, width, height, xBytes, rowBytes⟩

/-- `up_picture_plane_extent_ok` -/
def picturePlaneExtentOkSize (plane : VlcPlane) (extent : PlaneExtent) : Option Bool := do
  let pitch ← sizeT.ofInt plane.pitch
  let lines ← sizeT.ofInt plane.lines
  if extent.xBytes > pitch then pure false
  else do
    let rest ← sizeT.sub pitch extent.xBytes
    if extent.rowBytes > rest then pure false
    else if extent.y > lines then pure false
    else do
      let rest ← sizeT.sub lines extent.y
      if extent.height > rest then pure false
      else pure (decide (extent.width ≤ intMax) && decide (extent.height ≤ intMax) &&
        decide (extent.rowBytes ≤ intMax))

/-- `up_picture_plane_view_init`: the outer option is the wraparound, the inner
one the `false` return. -/
def picturePlaneViewInitSize (plane : VlcPlane) (g : PlaneGeom) :
    Option (Option PicturePlaneView) :=
  match plane.pixels with
  | none => pure none
  | some pixels =>
    if picturePlaneStorageOk plane g.pixelPitch = false then pure none
    else do
      let extent ← picturePlaneExtentSize g
      let extentOk ← picturePlaneExtentOkSize plane extent
      if extentOk = false then pure none
      else do
        let rowOffset ← sizeT.mul extent.y (← sizeT.ofInt plane.pitch)
        let room ← sizeT.sub sizeMax extent.xBytes
        if rowOffset > room then pure none
        else do
          let offset ← sizeT.add rowOffset extent.xBytes
          pure (some ⟨pixels + offset, plane.pitch⟩)

/-- `up_picture_declared_crop_ok` -/
def pictureDeclaredCropOkSize (pic : Picture) (region : PictureRegion) : Option Bool := do
  let width ← sizeT.ofInt region.width
  let height ← sizeT.ofInt region.height
  let xEnd ← sizeT.add region.xOffset width
  let yEnd ← sizeT.add region.yOffset height
  if xEnd > region.codedWidth ∨ yEnd > region.codedHeight then pure false
  else if pic.width < region.codedWidth ∨ pic.height < region.codedHeight then pure false
  else if pic.visibleWidth ≠ 0 ∧ width > pic.visibleWidth then pure false
  else pure (decide (pic.visibleHeight = 0) || decide (height ≤ pic.visibleHeight))

/-- `up_picture_view_args_ok` -/
def pictureViewArgsOkSize (pic : Picture) (chroma : ℕ) (region : PictureRegion) : Option Bool :=
  if region.width ≤ 0 ∨ region.height ≤ 0 then pure false
  else if pic.chroma ≠ chroma then pure false
  else if (region.xOffset : ℤ) > intMax ∨ (region.yOffset : ℤ) > intMax then pure false
  else pictureDeclaredCropOkSize pic region

/-- `memset(out, 0, sizeof *out)` -/
def PictureView.zero : PictureView := ⟨fun _ => ⟨0, 0⟩, 0⟩

/-- The plane loop of `up_picture_view_init` over the planes still to do: the
returned flag and the contents of `*out`. -/
def pictureViewPlanesSize (pic : Picture) (layout : ChromaDescriptor) (region : PictureRegion) :
    List ℕ → PictureView → Option (Bool × PictureView)
  | [], out => pure (true, { out with planeCount := layout.planeCount })
  | i :: rest, out => do
    let plane ← picturePlaneViewInitSize (pic.p i) (layout.planeGeom region i)
    match plane with
    | none => pure (false, PictureView.zero)
    | some view =>
      pictureViewPlanesSize pic layout region rest
        { out with plane := Function.update out.plane i view }

/-- `up_picture_view_init` on a given `*out`; NULL arguments are `none`. -/
def pictureViewInitSize (_out : PictureView) (pic : Option Picture) (expectedChroma : ℕ)
    (region : Option PictureRegion) : Option (Bool × PictureView) :=
  match pic, region with
  | some pic, some region => do
    let argsOk ← pictureViewArgsOkSize pic expectedChroma region
    if argsOk = false then pure (false, PictureView.zero)
    else
      match pictureViewLayout pic expectedChroma with
      | none => pure (false, PictureView.zero)
      | some layout =>
        pictureViewPlanesSize pic layout region (List.range layout.planeCount) PictureView.zero
  | _, _ => pure (false, PictureView.zero)

/-! ### Nothing wraps -/

theorem sizeT_ofInt {v : ℤ} (h0 : 0 ≤ v) (h : v ≤ intMax) : sizeT.ofInt v = some v.toNat := by
  unfold intMax at h
  refine ofInt_eq h0 ?_
  change v.toNat < 2 ^ 64
  omega

theorem sizeT_add {a b : ℕ} (h : a + b ≤ sizeMax) : sizeT.add a b = some (a + b) :=
  add_eq (by change _ < 2 ^ 64; unfold sizeMax at h; omega)

theorem sizeT_sub {a b : ℕ} (hle : b ≤ a) (h : a ≤ sizeMax) : sizeT.sub a b = some (a - b) :=
  sub_eq hle (by change _ < 2 ^ 64; unfold sizeMax at h; omega)

theorem sizeT_mul {a b : ℕ} (h : a * b ≤ sizeMax) : sizeT.mul a b = some (a * b) :=
  mul_eq (by change _ < 2 ^ 64; unfold sizeMax at h; omega)

theorem sizeT_div {a b : ℕ} (hb : 0 < b) (h : a ≤ sizeMax) : sizeT.div a b = some (a / b) :=
  div_eq hb (by change _ < 2 ^ 64; unfold sizeMax at h; omega)

/-- A window of non-negative `int`s over a group layout of `uint8_t`s. -/
structure PlaneGeom.Small (g : PlaneGeom) : Prop where
  xOffset : 0 ≤ g.xOffset ∧ g.xOffset ≤ intMax
  yOffset : 0 ≤ g.yOffset ∧ g.yOffset ≤ intMax
  width : 0 ≤ g.width ∧ g.width ≤ intMax
  height : 0 ≤ g.height ∧ g.height ≤ intMax
  xGroupPixels : g.xGroupPixels ≤ 255
  xGroupBytes : g.xGroupBytes ≤ 255
  yGroupPixels : g.yGroupPixels ≤ 255
  pixelPitch : g.pixelPitch ≤ 255

/-- The groups of one axis before a window and up to its end. -/
theorem groups_bounds (off len : ℕ) {gp : ℕ} (hg : 0 < gp) :
    off / gp ≤ (off + len + gp - 1) / gp ∧ off / gp ≤ off ∧
      (off + len + gp - 1) / gp ≤ off + len := by
  refine ⟨Nat.div_le_div_right (by omega), Nat.div_le_self _ _, ?_⟩
  obtain hzero | hpos := Nat.eq_zero_or_pos (off + len)
  · rw [hzero, Nat.zero_add, Nat.div_eq_of_lt (by omega)]
  · rw [Nat.div_le_iff_le_mul hg]
    have hmul := Nat.le_mul_of_pos_right (off + len) hg
    omega

theorem picturePlaneExtentSize_eq {g : PlaneGeom} (h : g.Small) :
    picturePlaneExtentSize g = some (picturePlaneExtent g) := by
  obtain ⟨⟨hx0, hx⟩, ⟨hy0, hy⟩, ⟨hw0, hw⟩, ⟨hh0, hh⟩, hgx, hgb, hgy, hpp⟩ := h
  unfold picturePlaneExtentSize picturePlaneExtent
  by_cases hzero : g.xGroupPixels = 0 ∨ g.xGroupBytes = 0 ∨ g.yGroupPixels = 0 ∨
      g.pixelPitch ≤ 0 ∨ g.xGroupBytes % g.pixelPitch.toNat ≠ 0
  · rw [if_pos hzero, if_pos hzero, Option.pure_def]
  rw [if_neg hzero, if_neg hzero]
  have hgxpos : 0 < g.xGroupPixels := by omega
  have hgypos : 0 < g.yGroupPixels := by omega
  have hpppos : 0 < g.pixelPitch := by omega
  have hppInt : g.pixelPitch ≤ intMax := by unfold intMax; omega
  obtain ⟨hxle, hxself, hxceil⟩ :=
    groups_bounds g.xOffset.toNat g.width.toNat hgxpos
  obtain ⟨hyle, hyself, hyceil⟩ :=
    groups_bounds g.yOffset.toNat g.height.toNat hgypos
  unfold intMax at hx hy hw hh
  have hbytes : ∀ n ≤ 4294967294, n * g.xGroupBytes ≤ sizeMax := by
    intro n hn
    refine (Nat.mul_le_mul hn hgb).trans ?_
    decide
  have hgroups : (g.xOffset.toNat + g.width.toNat + g.xGroupPixels - 1) / g.xGroupPixels -
      g.xOffset.toNat / g.xGroupPixels ≤ 4294967294 :=
    (Nat.sub_le _ _).trans (hxceil.trans (by omega))
  have hsize : 4294967549 ≤ sizeMax := by decide
  rw [bind_of_eq (sizeT_ofInt hx0 hx), bind_of_eq (sizeT_ofInt hy0 hy),
    bind_of_eq (sizeT_ofInt hw0 hw), bind_of_eq (sizeT_add (by omega)),
    bind_of_eq (sizeT_ofInt hh0 hh), bind_of_eq (sizeT_add (by omega)),
    bind_of_eq (sizeT_div hgxpos (by omega)), bind_of_eq (sizeT_div hgypos (by omega)),
    bind_of_eq (sizeT_add (by omega)), bind_of_eq (sizeT_sub (by omega) (by omega)),
    bind_of_eq (sizeT_div hgxpos (by omega)), bind_of_eq (sizeT_sub hxle (by omega)),
    bind_of_eq (sizeT_mul (hbytes _ hgroups)),
    bind_of_eq (sizeT_ofInt hpppos.le hppInt),
    bind_of_eq (sizeT_div (by omega) (hbytes _ hgroups)),
    bind_of_eq (sizeT_add (by omega)), bind_of_eq (sizeT_sub (by omega) (by omega)),
    bind_of_eq (sizeT_div hgypos (by omega)), bind_of_eq (sizeT_sub hyle (by omega)),
    bind_of_eq (sizeT_mul (hbytes _ (by omega))), bind_of_eq (sizeT_mul (hbytes _ hgroups)),
    Option.pure_def]

theorem picturePlaneExtentOkSize_eq {plane : VlcPlane} (hpitch : 0 ≤ plane.pitch)
    (hlines : 0 ≤ plane.lines) (h : plane.Typed) (extent : PlaneExtent) :
    picturePlaneExtentOkSize plane extent = some (picturePlaneExtentOk plane extent) := by
  have hp : plane.pitch.toNat ≤ sizeMax := by
    have := h.pitch.2
    unfold intMax at this
    unfold sizeMax
    omega
  have hl : plane.lines.toNat ≤ sizeMax := by
    have := h.lines.2
    unfold intMax at this
    unfold sizeMax
    omega
  unfold picturePlaneExtentOkSize picturePlaneExtentOk
  rw [bind_of_eq (sizeT_ofInt hpitch h.pitch.2), bind_of_eq (sizeT_ofInt hlines h.lines.2)]
  by_cases hx : extent.xBytes > plane.pitch.toNat
  · rw [if_pos hx, if_pos hx, Option.pure_def]
  rw [if_neg hx, if_neg hx, bind_of_eq (sizeT_sub (by omega) hp)]
  by_cases hrow : extent.rowBytes > plane.pitch.toNat - extent.xBytes
  · rw [if_pos hrow, if_pos hrow, Option.pure_def]
  rw [if_neg hrow, if_neg hrow]
  by_cases hy : extent.y > plane.lines.toNat
  · rw [if_pos hy, if_pos hy, Option.pure_def]
  rw [if_neg hy, if_neg hy, bind_of_eq (sizeT_sub (by omega) hl)]
  by_cases hh : extent.height > plane.lines.toNat - extent.y
  · rw [if_pos hh, if_pos hh, Option.pure_def]
  · rw [if_neg hh, if_neg hh, Option.pure_def]

/-- An accepted extent, taken apart. -/
theorem picturePlaneExtentOk_iff {plane : VlcPlane} {extent : PlaneExtent} :
    picturePlaneExtentOk plane extent = true ↔
      extent.xBytes + extent.rowBytes ≤ plane.pitch.toNat ∧
      extent.y + extent.height ≤ plane.lines.toNat ∧
      extent.width ≤ intMax ∧ extent.height ≤ intMax ∧ extent.rowBytes ≤ intMax := by
  unfold picturePlaneExtentOk
  split_ifs with h1 h2 h3 h4
  · simp only [false_iff]
    omega
  · simp only [false_iff]
    omega
  · simp only [false_iff]
    omega
  · simp only [false_iff]
    omega
  · simp only [Bool.and_eq_true, decide_eq_true_eq]
    omega

/-- Two `int`s multiply inside `size_t`. -/
theorem mul_le_sizeMax {a b : ℕ} (ha : (a : ℤ) ≤ intMax) (hb : (b : ℤ) ≤ intMax) :
    a * b ≤ 2147483647 * 2147483647 := by
  unfold intMax at ha hb
  exact Nat.mul_le_mul (by omega) (by omega)

theorem picturePlaneStorageOk_iff {plane : VlcPlane} {pixelPitch : ℤ} :
    picturePlaneStorageOk plane pixelPitch = true ↔
      plane.pixels ≠ none ∧ 0 < plane.pitch ∧ 0 < plane.lines ∧
        plane.pixelPitch = pixelPitch := by
  unfold picturePlaneStorageOk
  split_ifs with h
  · simp only [false_iff, not_and]
    rintro hne hp hl
    obtain h | h | h := h
    · exact absurd h hne
    · omega
    · omega
  · rw [decide_eq_true_eq]
    push Not at h
    exact ⟨fun hp => ⟨h.1, h.2.1, h.2.2, hp⟩, fun hp => hp.2.2.2⟩

/-- The offset of an accepted region inside its plane fits `size_t` with room to
spare. -/
theorem offset_le_sizeMax {plane : VlcPlane} {extent : PlaneExtent} (h : plane.Typed)
    (hpitch : 0 < plane.pitch) (hlines : 0 < plane.lines)
    (hextent : picturePlaneExtentOk plane extent = true) :
    extent.y * plane.pitch.toNat + extent.xBytes ≤ sizeMax ∧ extent.xBytes ≤ sizeMax := by
  obtain ⟨hx, hy, -, -, -⟩ := picturePlaneExtentOk_iff.mp hextent
  have hp := h.pitch.2
  have hl := h.lines.2
  have hmul := mul_le_sizeMax (a := extent.y) (b := plane.pitch.toNat) (by omega) (by omega)
  unfold intMax at hp hl
  unfold sizeMax
  omega

theorem picturePlaneViewInitSize_eq {plane : VlcPlane} {g : PlaneGeom} (h : plane.Typed)
    (hg : g.Small) :
    picturePlaneViewInitSize plane g = some (picturePlaneViewInit plane g) := by
  unfold picturePlaneViewInitSize picturePlaneViewInit
  cases hpixels : plane.pixels with
  | none => rfl
  | some pixels =>
    dsimp only
    cases hstorage : picturePlaneStorageOk plane g.pixelPitch with
    | false => rw [if_pos rfl, if_pos rfl, Option.pure_def]
    | true =>
      rw [if_neg (by decide), if_neg (by decide), bind_of_eq (picturePlaneExtentSize_eq hg)]
      obtain ⟨-, hpitch, hlines, -⟩ := picturePlaneStorageOk_iff.mp hstorage
      rw [bind_of_eq (picturePlaneExtentOkSize_eq hpitch.le hlines.le h _)]
      cases hextent : picturePlaneExtentOk plane (picturePlaneExtent g) with
      | false => rw [if_pos rfl, if_pos rfl, Option.pure_def]
      | true =>
        obtain ⟨hoffset, hx⟩ := offset_le_sizeMax h hpitch hlines hextent
        rw [if_neg (by decide), if_neg (by decide),
          bind_of_eq (sizeT_ofInt hpitch.le h.pitch.2), bind_of_eq (sizeT_mul (by omega)),
          bind_of_eq (sizeT_sub hx le_rfl), if_neg (by omega), if_neg (by omega),
          bind_of_eq (sizeT_add hoffset), Option.pure_def, Nat.add_assoc]

/-- Every group of every descriptor is a small `uint8_t`. -/
theorem chromaDescriptors_small : ∀ desc ∈ chromaDescriptors, ∀ i < 4,
    desc.xGroupPixels.getD i 0 ≤ 4 ∧ desc.xGroupBytes.getD i 0 ≤ 4 ∧
      desc.yGroupPixels.getD i 0 ≤ 4 ∧ desc.pixelPitch.getD i 0 ≤ 4 := by
  decide

theorem chromaDescriptors_planeCount : ∀ desc ∈ chromaDescriptors, desc.planeCount ≤ 4 := by
  decide

theorem chromaDescriptor_mem {c : ℕ} {desc : ChromaDescriptor}
    (h : chromaDescriptor c = some desc) : desc ∈ chromaDescriptors :=
  List.mem_of_find?_eq_some h

/-- The accepted arguments of `up_picture_view_init`. -/
theorem pictureViewArgsOk_iff {pic : Picture} {chroma : ℕ} {region : PictureRegion} :
    pictureViewArgsOk pic chroma region = true ↔
      (0 < region.width ∧ 0 < region.height) ∧ pic.chroma = chroma ∧
      ((region.xOffset : ℤ) ≤ intMax ∧ (region.yOffset : ℤ) ≤ intMax) ∧
      (region.xOffset + region.width ≤ region.codedWidth ∧
        region.yOffset + region.height ≤ region.codedHeight) ∧
      (region.codedWidth ≤ pic.width ∧ region.codedHeight ≤ pic.height) ∧
      (pic.visibleWidth = 0 ∨ region.width ≤ pic.visibleWidth) ∧
      (pic.visibleHeight = 0 ∨ region.height ≤ pic.visibleHeight) := by
  unfold pictureViewArgsOk pictureDeclaredCropOk
  dsimp only
  split_ifs with h1 h2 h3 h4 h5 h6
  · simp only [false_iff]
    omega
  · simp only [false_iff]
    exact fun h => h2 h.2.1
  · simp only [false_iff]
    omega
  · simp only [false_iff]
    omega
  · simp only [false_iff]
    omega
  · simp only [false_iff]
    omega
  · simp only [Bool.or_eq_true, decide_eq_true_eq]
    omega

/-- The window of an accepted region over a descriptor's groups. -/
theorem planeGeom_small {pic : Picture} {chroma : ℕ} {region : PictureRegion}
    {layout : ChromaDescriptor} (hargs : pictureViewArgsOk pic chroma region = true)
    (hregion : region.Typed) (hlayout : layout ∈ chromaDescriptors) {i : ℕ}
    (hi : i < layout.planeCount) : (layout.planeGeom region i).Small := by
  obtain ⟨hpos, -, hoff, -⟩ := pictureViewArgsOk_iff.mp hargs
  have hcount := chromaDescriptors_planeCount layout hlayout
  obtain ⟨hgx, hgb, hgy, hpp⟩ := chromaDescriptors_small layout hlayout i (by omega)
  exact
    { xOffset := ⟨Int.natCast_nonneg _, hoff.1⟩
      yOffset := ⟨Int.natCast_nonneg _, hoff.2⟩
      width := ⟨hpos.1.le, hregion.width.2⟩
      height := ⟨hpos.2.le, hregion.height.2⟩
      xGroupPixels := hgx.trans (by decide)
      xGroupBytes := hgb.trans (by decide)
      yGroupPixels := hgy.trans (by decide)
      pixelPitch := by
        change ((layout.pixelPitch.getD i 0 : ℕ) : ℤ) ≤ 255
        omega }

theorem pictureViewArgsOkSize_eq {pic : Picture} {chroma : ℕ} {region : PictureRegion}
    (hregion : region.Typed) :
    pictureViewArgsOkSize pic chroma region = some (pictureViewArgsOk pic chroma region) := by
  unfold pictureViewArgsOkSize pictureViewArgsOk
  by_cases hempty : region.width ≤ 0 ∨ region.height ≤ 0
  · rw [if_pos hempty, if_pos hempty, Option.pure_def]
  rw [if_neg hempty, if_neg hempty]
  by_cases hchroma : pic.chroma ≠ chroma
  · rw [if_pos hchroma, if_pos hchroma, Option.pure_def]
  rw [if_neg hchroma, if_neg hchroma]
  by_cases hoff : (region.xOffset : ℤ) > intMax ∨ (region.yOffset : ℤ) > intMax
  · rw [if_pos hoff, if_pos hoff, Option.pure_def]
  rw [if_neg hoff, if_neg hoff]
  have hsum : ∀ (off : ℕ) (len : ℤ), (off : ℤ) ≤ intMax → len ≤ intMax →
      off + len.toNat ≤ sizeMax := by
    unfold intMax sizeMax
    omega
  unfold pictureDeclaredCropOkSize pictureDeclaredCropOk
  rw [bind_of_eq (sizeT_ofInt (by omega) hregion.width.2),
    bind_of_eq (sizeT_ofInt (by omega) hregion.height.2),
    bind_of_eq (sizeT_add (hsum _ _ (by omega) hregion.width.2)),
    bind_of_eq (sizeT_add (hsum _ _ (by omega) hregion.height.2))]
  dsimp only
  split_ifs <;> rfl

/-- The plane loop over the planes still to do.  By induction on them: the
first rejected plane clears the view, otherwise every plane is stored. -/
theorem pictureViewPlanesSize_eq {pic : Picture} {layout : ChromaDescriptor}
    {region : PictureRegion} (hpic : pic.Typed) (todo : List ℕ) (out : PictureView)
    (hsmall : ∀ i ∈ todo, (layout.planeGeom region i).Small) (hnodup : todo.Nodup) :
    pictureViewPlanesSize pic layout region todo out =
      some (if todo.all fun i =>
          (picturePlaneViewInit (pic.p i) (layout.planeGeom region i)).isSome then
        (true,
          { plane := fun i => if i ∈ todo then
              (picturePlaneViewInit (pic.p i) (layout.planeGeom region i)).getD ⟨0, 0⟩
              else out.plane i
            planeCount := layout.planeCount })
      else (false, PictureView.zero)) := by
  induction todo generalizing out with
  | nil => simp [pictureViewPlanesSize]
  | cons i rest ih =>
    obtain ⟨hni, hrest⟩ := List.nodup_cons.mp hnodup
    unfold pictureViewPlanesSize
    rw [bind_of_eq (picturePlaneViewInitSize_eq (hpic.plane i)
      (hsmall i (List.mem_cons_self ..)))]
    cases hplane : picturePlaneViewInit (pic.p i) (layout.planeGeom region i) with
    | none => simp [hplane]
    | some view =>
      dsimp only
      rw [ih _ (fun j hj => hsmall j (List.mem_cons_of_mem _ hj)) hrest, List.all_cons, hplane,
        Option.isSome_some, Bool.true_and]
      congr 2
      rw [Prod.mk.injEq]
      refine ⟨rfl, ?_⟩
      congr 1
      funext j
      dsimp only
      by_cases hj : j = i
      · rw [hj, if_neg hni, if_pos (List.mem_cons_self ..), Function.update_self, hplane,
          Option.getD_some]
      · rw [Function.update_of_ne hj]
        simp only [List.mem_cons, hj, false_or]

/-- **No `size_t` operation of `up_picture_view_init` wraps**: the flag is
`pictureViewInit`'s, and a rejected picture leaves the view cleared. -/
theorem pictureViewInitSize_eq {pic : Picture} {region : PictureRegion} (hpic : pic.Typed)
    (hregion : region.Typed) (out : PictureView) (chroma : ℕ) :
    pictureViewInitSize out (some pic) chroma (some region) =
      some (match pictureViewInit (some pic) chroma region with
        | some view => (true, view)
        | none => (false, PictureView.zero)) := by
  unfold pictureViewInitSize pictureViewInit
  dsimp only
  rw [bind_of_eq (pictureViewArgsOkSize_eq hregion)]
  cases hargs : pictureViewArgsOk pic chroma region with
  | false => rw [if_pos rfl, if_pos rfl, Option.pure_def]
  | true =>
    rw [if_neg (by decide), if_neg (by decide)]
    cases hlayout : pictureViewLayout pic chroma with
    | none => rfl
    | some layout =>
      have hmem : layout ∈ chromaDescriptors := by
        unfold pictureViewLayout at hlayout
        split at hlayout
        · cases hlayout
        · rename_i hdesc
          split at hlayout
          · cases hlayout
          · exact chromaDescriptor_mem (hdesc.trans hlayout)
      dsimp only
      rw [pictureViewPlanesSize_eq hpic _ _ (fun i hi => planeGeom_small hargs hregion hmem
        (List.mem_range.mp hi)) List.nodup_range]
      by_cases hall : ((List.range layout.planeCount).all fun i =>
          (picturePlaneViewInit (pic.p i) (layout.planeGeom region i)).isSome) = true
      · rw [if_pos hall, if_pos hall]
        simp only [List.mem_range, PictureView.zero]
      · rw [if_neg hall, if_neg hall]

/-! ### Exactly which arguments are rejected -/

/-- A plane without the storage its extent needs. -/
def PlaneRejected (plane : VlcPlane) (g : PlaneGeom) : Prop :=
  plane.pixels = none ∨ plane.pitch ≤ 0 ∨ plane.lines ≤ 0 ∨ plane.pixelPitch ≠ g.pixelPitch ∨
    plane.pitch < (picturePlaneExtent g).xBytes + (picturePlaneExtent g).rowBytes ∨
    plane.lines < (picturePlaneExtent g).y + (picturePlaneExtent g).height

/-- A picture or a region a view cannot be made of. -/
def ViewRejected (pic : Picture) (chroma : ℕ) (region : PictureRegion) : Prop :=
  chromaDescriptor chroma = none ∨ pic.chroma ≠ chroma ∨
    -- an empty region, or an offset past `INT_MAX`
    (region.width ≤ 0 ∨ region.height ≤ 0) ∨
    ((region.xOffset : ℤ) > intMax ∨ (region.yOffset : ℤ) > intMax) ∨
    -- outside the coded size
    (region.xOffset + region.width > region.codedWidth ∨
      region.yOffset + region.height > region.codedHeight) ∨
    -- a picture too small for the coded size or for the region
    (pic.width < region.codedWidth ∨ pic.height < region.codedHeight) ∨
    (pic.visibleWidth ≠ 0 ∧ region.width > pic.visibleWidth) ∨
    (pic.visibleHeight ≠ 0 ∧ region.height > pic.visibleHeight) ∨
    -- a plane missing or rejected
    ∃ layout, chromaDescriptor chroma = some layout ∧
      (pic.planes < layout.planeCount ∨
        ∃ i < layout.planeCount, PlaneRejected (pic.p i) (layout.planeGeom region i))

/-- A row of an extent holds at least as many bytes as pixels. -/
theorem picturePlaneExtent_width_le {g : PlaneGeom} :
    (picturePlaneExtent g).width ≤ (picturePlaneExtent g).rowBytes := by
  unfold picturePlaneExtent
  split_ifs
  · exact le_rfl
  · exact Nat.div_le_self _ _

theorem picturePlaneViewInit_eq_none_iff {plane : VlcPlane} {g : PlaneGeom} (h : plane.Typed) :
    picturePlaneViewInit plane g = none ↔ PlaneRejected plane g := by
  unfold PlaneRejected picturePlaneViewInit
  cases hpixels : plane.pixels with
  | none => simp
  | some pixels =>
    simp only [reduceCtorEq, false_or]
    cases hstorage : picturePlaneStorageOk plane g.pixelPitch with
    | false =>
      have hno := mt picturePlaneStorageOk_iff.mpr (by rw [hstorage]; decide)
      rw [if_pos rfl]
      simp only [true_iff]
      by_contra hcon
      push Not at hcon
      exact hno ⟨by rw [hpixels]; simp, hcon.1, hcon.2.1, hcon.2.2.1⟩
    | true =>
      obtain ⟨-, hpitch, hlines, hpp⟩ := picturePlaneStorageOk_iff.mp hstorage
      rw [if_neg (by decide)]
      cases hextent : picturePlaneExtentOk plane (picturePlaneExtent g) with
      | false =>
        have hno := mt picturePlaneExtentOk_iff.mpr (by rw [hextent]; decide)
        -- the width in pixels is no condition of its own
        have hwidth := picturePlaneExtent_width_le (g := g)
        have hp := h.pitch.2
        have hl := h.lines.2
        rw [if_pos rfl]
        simp only [true_iff]
        by_contra hcon
        push Not at hcon
        obtain ⟨-, -, -, hx, hy⟩ := hcon
        exact hno ⟨by omega, by omega, by omega, by omega, by omega⟩
      | true =>
        obtain ⟨hx, hy, -⟩ := picturePlaneExtentOk_iff.mp hextent
        obtain ⟨hoffset, -⟩ := offset_le_sizeMax h hpitch hlines hextent
        rw [if_neg (by decide), if_neg (by omega)]
        simp only [reduceCtorEq, false_iff, not_or, not_le, not_not, not_lt]
        exact ⟨hpitch, hlines, hpp, by omega, by omega⟩

/-- **The rejected arguments, exactly.** -/
theorem pictureViewInit_eq_none_iff {pic : Picture} {chroma : ℕ} {region : PictureRegion}
    (hpic : pic.Typed) :
    pictureViewInit (some pic) chroma region = none ↔ ViewRejected pic chroma region := by
  unfold pictureViewInit
  dsimp only
  cases hargs : pictureViewArgsOk pic chroma region with
  | false =>
    -- the arguments fail, and with them one of the first conditions
    have hno := mt pictureViewArgsOk_iff.mpr (by rw [hargs]; decide)
    rw [if_pos rfl]
    simp only [true_iff]
    by_contra hcon
    unfold ViewRejected at hcon
    push Not at hcon
    obtain ⟨-, hc, hpos, hoff, hcoded, hsize, hvw, hvh, -⟩ := hcon
    refine hno ⟨hpos, hc, hoff, hcoded, hsize, ?_, ?_⟩
    · exact or_iff_not_imp_left.mpr hvw
    · exact or_iff_not_imp_left.mpr hvh
  | true =>
    obtain ⟨hpos, hc, hoff, hcoded, hsize, hvw, hvh⟩ := pictureViewArgsOk_iff.mp hargs
    -- of these only the chroma and the planes are left
    have hargsHold : ViewRejected pic chroma region ↔ chromaDescriptor chroma = none ∨
        ∃ layout, chromaDescriptor chroma = some layout ∧
          (pic.planes < layout.planeCount ∨
            ∃ i < layout.planeCount, PlaneRejected (pic.p i) (layout.planeGeom region i)) := by
      unfold ViewRejected
      constructor
      · rintro (h | h | h | h | h | h | h | h | h)
        · exact .inl h
        · exact absurd hc h
        · omega
        · omega
        · omega
        · omega
        · omega
        · omega
        · exact .inr h
      · rintro (h | h)
        · exact .inl h
        · exact .inr (.inr (.inr (.inr (.inr (.inr (.inr (.inr h)))))))
    rw [if_neg (by decide), hargsHold]
    unfold pictureViewLayout
    cases hdesc : chromaDescriptor chroma with
    | none => simp
    | some layout =>
      simp only [reduceCtorEq, false_or, Option.some.injEq, exists_eq_left']
      by_cases hplanes : pic.planes < layout.planeCount
      · simp [hplanes]
      · rw [if_neg hplanes, or_iff_right hplanes]
        dsimp only
        by_cases hall : ((List.range layout.planeCount).all fun i =>
            (picturePlaneViewInit (pic.p i) (layout.planeGeom region i)).isSome) = true
        · rw [if_pos hall]
          simp only [reduceCtorEq, false_iff, not_exists, not_and]
          intro i hi hrej
          have hsome := List.all_eq_true.mp hall i (List.mem_range.mpr hi)
          rw [(picturePlaneViewInit_eq_none_iff (hpic.plane i)).mpr hrej] at hsome
          exact absurd hsome (by decide)
        · rw [if_neg hall]
          simp only [true_iff]
          rw [List.all_eq_true] at hall
          push Not at hall
          obtain ⟨i, hi, hnone⟩ := hall
          exact ⟨i, List.mem_range.mp hi, (picturePlaneViewInit_eq_none_iff (hpic.plane i)).mp
            (Option.not_isSome_iff_eq_none.mp hnone)⟩

/-! ### Soundness -/

/-- Every byte of every row of the plane's extent, addressed from the returned
pointer and pitch, is a byte of the plane's storage. -/
def PlaneViewSound (plane : VlcPlane) (g : PlaneGeom) (view : PicturePlaneView) : Prop :=
  ∃ base, plane.pixels = some base ∧ ∀ row < (picturePlaneExtent g).height,
    ∀ byte < (picturePlaneExtent g).rowBytes,
      ∃ offset, view.pixels + row * view.pitch.toNat + byte = base + offset ∧
        (offset : ℤ) < plane.pitch * plane.lines ∧ offset ≤ sizeMax

/-- Row and column bounds give an offset inside `lines` rows of `pitch`. -/
theorem row_offset_lt {pitch lines row col : ℕ} (hrow : row < lines) (hcol : col < pitch) :
    row * pitch + col < pitch * lines := by
  have hstep : (row + 1) * pitch ≤ lines * pitch := Nat.mul_le_mul_right _ hrow
  rw [Nat.succ_mul] at hstep
  rw [Nat.mul_comm pitch]
  omega

theorem picturePlaneViewInit_sound {plane : VlcPlane} {g : PlaneGeom} {view : PicturePlaneView}
    (h : plane.Typed) (hview : picturePlaneViewInit plane g = some view) :
    PlaneViewSound plane g view := by
  obtain ⟨base, hbase, hpitch, hpos, hpixels, hrows, hlines⟩ := picturePlaneViewInit_spec hview
  refine ⟨base, hbase, fun row hrow byte hbyte => ?_⟩
  have hlt : ((picturePlaneExtent g).y + row) * plane.pitch.toNat +
      ((picturePlaneExtent g).xBytes + byte) < plane.pitch.toNat * plane.lines.toNat :=
    row_offset_lt (by omega) (by omega)
  have hstorage : ((plane.pitch.toNat * plane.lines.toNat : ℕ) : ℤ) =
      plane.pitch * plane.lines := by
    rw [Nat.cast_mul, Int.toNat_of_nonneg hpos.le, Int.toNat_of_nonneg (by omega)]
  have hsize := mul_le_sizeMax (a := plane.pitch.toNat) (b := plane.lines.toNat)
    (by have := h.pitch.2; omega) (by have := h.lines.2; unfold intMax at *; omega)
  refine ⟨((picturePlaneExtent g).y + row) * plane.pitch.toNat +
    ((picturePlaneExtent g).xBytes + byte), ?_, by omega, ?_⟩
  · rw [hpixels, hpitch]
    ring
  · unfold sizeMax
    omega

/-- **Picture views are sound and complete.**  On C-typed arguments no `size_t`
operation wraps; an accepted view addresses only the storage of its planes; the
rejected arguments are exactly the listed ones; and a rejection, that of NULL
arguments included, leaves the output view cleared. -/
theorem pictureViewInit_contract {pic : Picture} {region : PictureRegion} (hpic : pic.Typed)
    (hregion : region.Typed) (out : PictureView) (chroma : ℕ) :
    ∃ ok view, pictureViewInitSize out (some pic) chroma (some region) = some (ok, view) ∧
      (ok = true → ∃ layout, chromaDescriptor chroma = some layout ∧
        view.planeCount = layout.planeCount ∧ ∀ i < layout.planeCount,
          PlaneViewSound (pic.p i) (layout.planeGeom region i) (view.plane i)) ∧
      (ok = false ↔ ViewRejected pic chroma region) ∧
      (ok = false → view = PictureView.zero) ∧
      ∀ pic' region', (pic' = none ∨ region' = none) →
        pictureViewInitSize out pic' chroma region' = some (false, PictureView.zero) := by
  have hnull : ∀ pic' region', (pic' = none ∨ region' = none) →
      pictureViewInitSize out pic' chroma region' = some (false, PictureView.zero) := by
    rintro (_ | pic') (_ | region') h
    · rfl
    · rfl
    · rfl
    · simp at h
  rw [pictureViewInitSize_eq hpic hregion, ← pictureViewInit_eq_none_iff hpic]
  cases hview : pictureViewInit (some pic) chroma region with
  | none => exact ⟨false, PictureView.zero, rfl, by simp, by simp, fun _ => rfl, hnull⟩
  | some view =>
    refine ⟨true, view, rfl, fun _ => ?_, by simp, by simp, hnull⟩
    obtain ⟨pic', layout, hpic', hdesc, hcount, hplane⟩ := pictureViewInit_plane hview
    obtain rfl := Option.some.inj hpic'
    exact ⟨layout, hdesc, hcount, fun i hi =>
      picturePlaneViewInit_sound (hpic.plane i) (hplane i hi)⟩

/-- An 8×4 I420 picture. -/
def samplePicture : Picture :=
  { chroma := fourcc 'I' '4' '2' '0'
    width := 8
    height := 4
    visibleWidth := 8
    visibleHeight := 4
    planes := 3
    p := fun i => if i = 0 then ⟨some 4096, 32, 4, 1⟩
      else if i = 1 then ⟨some 8192, 32, 2, 1⟩ else ⟨some 12288, 32, 2, 1⟩ }

theorem samplePicture_typed : samplePicture.Typed where
  width := by decide
  height := by decide
  visibleWidth := by decide
  visibleHeight := by decide
  planes := by decide
  plane i := by
    unfold samplePicture
    dsimp only
    split_ifs
    · exact ⟨by decide, by decide, by decide⟩
    · exact ⟨by decide, by decide, by decide⟩
    · exact ⟨by decide, by decide, by decide⟩

/-- The right half of the sample picture. -/
def sampleRegion : PictureRegion := ⟨8, 4, 4, 0, 4, 4⟩

theorem sampleRegion_typed : sampleRegion.Typed :=
  ⟨by decide, by decide, by decide, by decide, by decide, by decide⟩

theorem pictureViewInit_contract_sample :
    ∃ ok view, pictureViewInitSize PictureView.zero (some samplePicture)
        (fourcc 'I' '4' '2' '0') (some sampleRegion) = some (ok, view) ∧
      (ok = false ↔ ViewRejected samplePicture (fourcc 'I' '4' '2' '0') sampleRegion) := by
  obtain ⟨ok, view, hrun, -, hrejected, -⟩ := pictureViewInit_contract samplePicture_typed
    sampleRegion_typed PictureView.zero (fourcc 'I' '4' '2' '0')
  exact ⟨ok, view, hrun, hrejected⟩

end AutoUpscale
