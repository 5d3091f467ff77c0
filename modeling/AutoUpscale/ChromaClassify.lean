/-
Software-chroma metadata and crop alignment (`src/chroma_classify.h`,
`src/scaler_zimg_chroma.h`).

`chromaDescriptors` is the source's table of accepted software formats.  The
crop alignment is `alignCropEven`; `alignAxisEven_even` says what one axis of it
achieves: start and extent both come out even, so a subsampled chroma plane
starts and stops exactly where the luma crop does.
-/
import AutoUpscale.UpscaleLogic

namespace AutoUpscale

/-- `UP_FOURCC` on a little-endian host. -/
def fourcc (a b c d : Char) : ℕ :=
  a.toNat + b.toNat * 2 ^ 8 + c.toNat * 2 ^ 16 + d.toNat * 2 ^ 24

/-- `up_chroma_layout_t` -/
inductive ChromaLayout
  | invalid | yuv420p | yuv422p | yuv444p | nv12 | nv21 | rgb24 | rgba | bgra
  deriving DecidableEq, Repr

/-- `up_chroma_descriptor_t` -/
structure ChromaDescriptor where
  chroma : ℕ
  layout : ChromaLayout
  planeCount : ℕ
  subW : ℕ
  subH : ℕ
  uvPlanesSwapped : Bool
  xGroupPixels : List ℕ
  xGroupBytes : List ℕ
  yGroupPixels : List ℕ
  pixelPitch : List ℕ
  deriving DecidableEq, Repr

/-- `up_chroma_descriptors` -/
def chromaDescriptors : List ChromaDescriptor :=
  [⟨fourcc 'I' '4' '2' '0', .yuv420p, 3, 1, 1, false,
      [1, 2, 2, 0], [1, 1, 1, 0], [1, 2, 2, 0], [1, 1, 1, 0]⟩,
   ⟨fourcc 'Y' 'V' '1' '2', .yuv420p, 3, 1, 1, true,
      [1, 2, 2, 0], [1, 1, 1, 0], [1, 2, 2, 0], [1, 1, 1, 0]⟩,
   ⟨fourcc 'I' '4' '2' '2', .yuv422p, 3, 1, 0, false,
      [1, 2, 2, 0], [1, 1, 1, 0], [1, 1, 1, 0], [1, 1, 1, 0]⟩,
   ⟨fourcc 'I' '4' '4' '4', .yuv444p, 3, 0, 0, false,
      [1, 1, 1, 0], [1, 1, 1, 0], [1, 1, 1, 0], [1, 1, 1, 0]⟩,
   ⟨fourcc 'N' 'V' '1' '2', .nv12, 2, 1, 1, false,
      [1, 2, 0, 0], [1, 2, 0, 0], [1, 2, 0, 0], [1, 1, 0, 0]⟩,
   ⟨fourcc 'N' 'V' '2' '1', .nv21, 2, 1, 1, false,
      [1, 2, 0, 0], [1, 2, 0, 0], [1, 2, 0, 0], [1, 1, 0, 0]⟩,
   ⟨fourcc 'R' 'V' '2' '4', .rgb24, 1, 0, 0, false,
      [1, 0, 0, 0], [3, 0, 0, 0], [1, 0, 0, 0], [3, 0, 0, 0]⟩,
   ⟨fourcc 'R' 'G' 'B' 'A', .rgba, 1, 0, 0, false,
      [1, 0, 0, 0], [4, 0, 0, 0], [1, 0, 0, 0], [4, 0, 0, 0]⟩,
   ⟨fourcc 'B' 'G' 'R' 'A', .bgra, 1, 0, 0, false,
      [1, 0, 0, 0], [4, 0, 0, 0], [1, 0, 0, 0], [4, 0, 0, 0]⟩]

/-- `up_chroma_descriptor` -/
def chromaDescriptor (c : ℕ) : Option ChromaDescriptor :=
  chromaDescriptors.find? fun d => d.chroma == c

/-- `up_chroma_physical_plane_index` -/
def chromaPhysicalPlaneIndex (semanticPlane : ℕ) (uvPlanesSwapped : Bool) : ℕ :=
  if ¬ uvPlanesSwapped then semanticPlane
  else if semanticPlane = 1 then 2
  else if semanticPlane = 2 then 1
  else semanticPlane

/-- `up_chroma_layout_has_y` -/
def ChromaLayout.hasY : ChromaLayout → Bool
  | .yuv420p | .yuv422p | .yuv444p | .nv12 | .nv21 => true
  | _ => false

/-- `up_chroma_layout_is_planar` -/
def ChromaLayout.isPlanar : ChromaLayout → Bool
  | .yuv420p | .yuv422p | .yuv444p => true
  | _ => false

/-- `up_chroma_has_y_plane` -/
def chromaHasYPlane (c : ℕ) : Bool :=
  match chromaDescriptor c with
  | some desc => desc.layout.hasY
  | none => false

/-- `up_chroma_subsample`: the two shift exponents, `none` for a chroma without
a discrete Y plane. -/
def chromaSubsample (c : ℕ) : Option (ℕ × ℕ) :=
  match chromaDescriptor c with
  | some desc => if desc.layout.hasY then some (desc.subW, desc.subH) else none
  | none => none

/-- `up_chroma_to_zimg`: `(sub_w, sub_h, yv12_swap)`, `none` on rejection. -/
def chromaToZimg (c : ℕ) : Option (ℕ × ℕ × Bool) :=
  match chromaDescriptor c with
  | some desc =>
    if desc.layout.isPlanar then some (desc.subW, desc.subH, desc.uvPlanesSwapped) else none
  | none => none

/-! ### Crop alignment -/

/-- `UINT_MAX` -/
def uintMax : ℕ := 4294967295

/-- `up_chroma_align_axis_even`; a NULL argument is `none`. -/
def alignAxisEven (dim : Option ℤ) (off : Option ℕ) : Option ℤ × Option ℕ :=
  match dim, off with
  | some dim, some off =>
    if dim ≤ 0 then (some 0, some off)
    else
      let start := off
      let end_ := start + dim.toNat
      let alignedStart := (start + 1) - (start + 1) % 2
      let alignedEnd := end_ - end_ % 2
      if alignedStart > uintMax then (some 0, some off)
      else
        (some (if alignedEnd > alignedStart then ((alignedEnd - alignedStart : ℕ) : ℤ) else 0),
          some alignedStart)
  | dim, off => (dim.map alignDown2, off.map fun o => o - o % 2)

/-- A crop window: the four `*w, *h, *x, *y` of `up_chroma_align_crop_even`. -/
structure CropArgs where
  w : Option ℤ
  h : Option ℤ
  x : Option ℕ
  y : Option ℕ
  deriving DecidableEq, Repr

/-- `up_chroma_align_crop_even` -/
def alignCropEven (c : ℕ) (crop : CropArgs) : CropArgs :=
  match chromaSubsample c with
  | none => crop
  | some (subW, subH) =>
    let (w, x) := if subW ≠ 0 then alignAxisEven crop.w crop.x else (crop.w, crop.x)
    let (h, y) := if subH ≠ 0 then alignAxisEven crop.h crop.y else (crop.h, crop.y)
    ⟨w, h, x, y⟩

/-- A full-axis call leaves an even extent, and an even start whenever that
extent is positive. -/
theorem alignAxisEven_even {dim dim' : ℤ} {off off' : ℕ}
    (h : alignAxisEven (some dim) (some off) = (some dim', some off')) :
    dim' % 2 = 0 ∧ (0 < dim' → off' % 2 = 0) := by
  unfold alignAxisEven at h
  dsimp only at h
  split_ifs at h with h1 h2 h3 <;> rw [Prod.mk.injEq, Option.some_inj, Option.some_inj] at h <;>
    obtain ⟨rfl, rfl⟩ := h <;> omega

/-- The planar chromas are exactly the ones zimg takes, with shift exponents 0
or 1 that the crop alignment uses too. -/
theorem chromaToZimg_spec {c subW subH : ℕ} {swap : Bool}
    (h : chromaToZimg c = some (subW, subH, swap)) :
    subW ≤ 1 ∧ subH ≤ 1 ∧ chromaSubsample c = some (subW, subH) := by
  unfold chromaToZimg at h
  split at h
  · next desc hdesc =>
    have hmem : desc ∈ chromaDescriptors := List.mem_of_find?_eq_some hdesc
    have htable : ∀ d ∈ chromaDescriptors,
        d.subW ≤ 1 ∧ d.subH ≤ 1 ∧ (d.layout.isPlanar = true → d.layout.hasY = true) := by
      decide
    obtain ⟨hw, hh, hy⟩ := htable desc hmem
    split_ifs at h with hplanar
    obtain ⟨rfl, rfl, rfl⟩ : desc.subW = subW ∧ desc.subH = subH ∧
        desc.uvPlanesSwapped = swap := by simpa using h
    refine ⟨hw, hh, ?_⟩
    unfold chromaSubsample
    rw [hdesc]
    dsimp only
    rw [if_pos (hy hplanar)]
  · cases h

/-! ### Planes by number -/

/-- The plane of a picture that stores component `k`: YV12 has U in plane 2 and V in
plane 1, every other chroma has its planes in order. -/
def storedPlane (chroma k : ℕ) : ℕ :=
  if chroma = fourcc 'Y' 'V' '1' '2' ∧ k = 1 then 2
  else if chroma = fourcc 'Y' 'V' '1' '2' ∧ k = 2 then 1
  else k

/-- YV12 alone stores V before U. -/
theorem chromaDescriptor_swap {c : ℕ} {desc : ChromaDescriptor}
    (h : chromaDescriptor c = some desc) :
    desc.uvPlanesSwapped = true ↔ c = fourcc 'Y' 'V' '1' '2' := by
  have hchroma : desc.chroma = c := by simpa using List.find?_some h
  have htable : ∀ d ∈ chromaDescriptors,
      d.uvPlanesSwapped = true ↔ d.chroma = fourcc 'Y' 'V' '1' '2' := by
    decide
  rw [← hchroma]
  exact htable desc (List.mem_of_find?_eq_some h)

theorem chromaToZimg_swap {c subW subH : ℕ} {swap : Bool}
    (h : chromaToZimg c = some (subW, subH, swap)) :
    swap = true ↔ c = fourcc 'Y' 'V' '1' '2' := by
  unfold chromaToZimg at h
  split at h
  · next desc hdesc =>
    split_ifs at h with hplanar
    obtain ⟨rfl, rfl, rfl⟩ : desc.subW = subW ∧ desc.subH = subH ∧
        desc.uvPlanesSwapped = swap := by simpa using h
    exact chromaDescriptor_swap hdesc
  · cases h

/-- The physical index of a component is the plane that stores it. -/
theorem chromaPhysicalPlaneIndex_eq {c : ℕ} {swap : Bool}
    (h : swap = true ↔ c = fourcc 'Y' 'V' '1' '2') (k : ℕ) :
    chromaPhysicalPlaneIndex k swap = storedPlane c k := by
  unfold chromaPhysicalPlaneIndex storedPlane
  by_cases hyv12 : c = fourcc 'Y' 'V' '1' '2'
  · rw [h.mpr hyv12]
    simp [hyv12]
  · rw [if_pos (mt h.mp hyv12)]
    simp [hyv12]

end AutoUpscale
