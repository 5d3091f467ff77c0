/-
The crop alignment as the largest even interval (`src/chroma_classify.h`).

`alignAxisEvenInt` and `alignCropEvenInt` are the two functions with their
`uint64_t`, `unsigned` and `int` arithmetic checked.

- `alignAxisEven_spec`: a full axis becomes the largest even interval inside it.
- `alignCropEven_idem`: aligning an aligned crop changes nothing, whichever
  pointers are NULL.
- `alignCropEvenInt_eq`: the checked arithmetic never fails, so nothing wraps.
- **`alignCropEven_largest`** puts them together for the whole crop.
-/
import AutoUpscale.AlignedInterval
import AutoUpscale.ChromaClassify
import AutoUpscale.UpscaleContract

namespace AutoUpscale

open MachineInt MachineInt.WordType AlignedInterval

/-! ### One axis -/

/-- The pixels of an axis as an interval; no extent below one is an empty one. -/
def axisEnd (dim : ℤ) (off : ℕ) : ℕ := off + dim.toNat

/-- The largest even interval inside the axis starts past `UINT_MAX`. -/
def StartUnrepresentable (dim : ℤ) (off : ℕ) : Prop :=
  ∃ a b, Largest 2 off (axisEnd dim off) a b ∧ uintMax < a

/-- An axis and what its alignment leaves of it. -/
structure AxisAligned (dim : ℤ) (off : ℕ) (dim' : ℤ) (off' : ℕ) : Prop where
  dim_nonneg : 0 ≤ dim'
  largest : 0 < dim' → Largest 2 off (axisEnd dim off) off' (axisEnd dim' off')
  dim_zero : dim' = 0 ↔
    dim ≤ 0 ∨ (¬ ∃ a b, Inside 2 off (axisEnd dim off) a b) ∨ StartUnrepresentable dim off
  start_moves : off ≤ off' ∧ off' ≤ off + 1
  start_representable : off' ≤ uintMax
  extent_lost : ¬ StartUnrepresentable dim off → 0 < dim → 0 ≤ dim - dim' ∧ dim - dim' ≤ 2

theorem sub_mod_eq_roundDown (n : ℕ) : n - n % 2 = roundDown 2 n := by
  rw [roundDown, Nat.div_mul_self_eq_mod_sub_self]

/-- The alignment in terms of the two roundings. -/
theorem alignAxisEven_eq (dim : ℤ) (off : ℕ) :
    alignAxisEven (some dim) (some off) =
      if dim ≤ 0 then (some 0, some off)
      else if roundUp 2 off > uintMax then (some 0, some off)
      else (some (if roundDown 2 (axisEnd dim off) > roundUp 2 off
          then ((roundDown 2 (axisEnd dim off) - roundUp 2 off : ℕ) : ℤ) else 0),
        some (roundUp 2 off)) := by
  unfold alignAxisEven
  dsimp only
  rw [sub_mod_eq_roundDown, sub_mod_eq_roundDown]
  rfl

/-- **A full axis becomes the largest even interval inside it.** -/
theorem alignAxisEven_spec (dim : ℤ) {off : ℕ} (hoff : off ≤ uintMax) :
    ∃ dim' off', alignAxisEven (some dim) (some off) = (some dim', some off') ∧
      AxisAligned dim off dim' off' := by
  have hup := le_roundUp two_pos off
  have hup' := roundUp_lt_add two_pos off
  have hdown := roundDown_le 2 (axisEnd dim off)
  have hdown' := lt_roundDown_add two_pos (axisEnd dim off)
  have hinside := exists_inside_iff two_pos (s := off) (e := axisEnd dim off)
  rw [alignAxisEven_eq]
  split_ifs with hdim hrep hroom
  · -- nothing to align
    refine ⟨0, off, rfl, le_rfl, fun h => absurd h (lt_irrefl 0), ?_, ⟨le_rfl, by omega⟩, hoff, ?_⟩
    · exact iff_of_true rfl (.inl hdim)
    · intro _ hpos
      omega
  · -- the even start after `UINT_MAX`
    refine ⟨0, off, rfl, le_rfl, fun h => absurd h (lt_irrefl 0), ?_, ⟨le_rfl, by omega⟩, hoff, ?_⟩
    · refine iff_of_true rfl (.inr ?_)
      by_cases hlt : roundUp 2 off < roundDown 2 (axisEnd dim off)
      · exact .inr ⟨_, _, largest_of_lt two_pos hlt, hrep⟩
      · exact .inl (mt hinside.mp hlt)
    · intro hunrep _
      -- an interval there would start past `UINT_MAX`
      have hlt : ¬ roundUp 2 off < roundDown 2 (axisEnd dim off) := by
        intro hlt
        exact hunrep ⟨_, _, largest_of_lt two_pos hlt, hrep⟩
      rw [axisEnd] at hlt hdown'
      omega
  · -- room for an interval between the rounded ends
    have hdiff : axisEnd ((roundDown 2 (axisEnd dim off) - roundUp 2 off : ℕ) : ℤ)
        (roundUp 2 off) = roundDown 2 (axisEnd dim off) := by
      rw [axisEnd, Int.toNat_natCast, Nat.add_sub_cancel' hroom.le]
    refine ⟨_, _, rfl, Int.natCast_nonneg _, ?_, ?_, ⟨hup, by omega⟩, not_lt.mp hrep, ?_⟩
    · intro _
      rw [hdiff]
      exact largest_of_lt two_pos hroom
    · refine iff_of_false (by omega) ?_
      rintro (hneg | hnone | ⟨a, b, hlargest, hbig⟩)
      · exact hdim hneg
      · exact hnone (hinside.mpr hroom)
      · rw [((largest_iff two_pos).mp hlargest).2.1] at hbig
        exact hrep hbig
    · intro _ _
      rw [axisEnd] at hdown hdown' hroom ⊢
      omega
  · -- the rounded ends have met
    refine ⟨0, _, rfl, le_rfl, fun h => absurd h (lt_irrefl 0), ?_, ⟨hup, by omega⟩,
      not_lt.mp hrep, ?_⟩
    · exact iff_of_true rfl (.inr (.inl (mt hinside.mp hroom)))
    · intro _ _
      rw [axisEnd] at hroom hdown'
      omega

/-- An axis with an even extent that starts on an even pixel, or with none at
all, stays. -/
theorem alignAxisEven_of_even {dim : ℤ} {off : ℕ} (hoff : off ≤ uintMax) (hdim : dim % 2 = 0)
    (heven : 0 < dim → off % 2 = 0) (hneg : 0 ≤ dim) :
    alignAxisEven (some dim) (some off) = (some dim, some off) := by
  rw [alignAxisEven_eq]
  obtain hzero | hpos := hneg.eq_or_lt
  · rw [if_pos hzero.ge, hzero]
  · have hstart : roundUp 2 off = off :=
      roundUp_of_dvd two_pos (Nat.dvd_of_mod_eq_zero (heven hpos))
    have hend : roundDown 2 (axisEnd dim off) = axisEnd dim off := by
      have hparity := heven hpos
      exact roundDown_of_dvd (by rw [axisEnd]; omega)
    rw [if_neg (by omega), hstart, hend, if_neg (by omega), axisEnd, if_pos (by omega)]
    rw [show ((off + dim.toNat - off : ℕ) : ℤ) = dim by omega]

theorem alignAxisEven_idem (dim : Option ℤ) (off : Option ℕ) (hoff : ∀ o ∈ off, o ≤ uintMax) :
    alignAxisEven (alignAxisEven dim off).1 (alignAxisEven dim off).2 =
      alignAxisEven dim off := by
  cases dim with
  | none =>
    cases off with
    | none => rfl
    | some o =>
      show (none, some (o - o % 2 - (o - o % 2) % 2)) = (none, some (o - o % 2))
      rw [show o - o % 2 - (o - o % 2) % 2 = o - o % 2 by omega]
  | some d =>
    cases off with
    | none =>
      show (some (alignDown2 (alignDown2 d)), none) = (some (alignDown2 d), none)
      rw [show alignDown2 (alignDown2 d) = alignDown2 d - alignDown2 d % 2 from rfl,
        alignDown2_even, sub_zero]
    | some o =>
      obtain ⟨dim', off', heq, hspec⟩ := alignAxisEven_spec d (hoff o rfl)
      obtain ⟨hdim, heven⟩ := alignAxisEven_even heq
      rw [heq]
      exact alignAxisEven_of_even hspec.start_representable hdim heven hspec.dim_nonneg

/-! ### The whole crop -/

/-- The alignment of one axis, as far as the plane is subsampled along it. -/
def AxisSettled (sub : ℕ) (dim : ℤ) (off : ℕ) (dim' : ℤ) (off' : ℕ) : Prop :=
  if sub ≠ 0 then AxisAligned dim off dim' off' else dim' = dim ∧ off' = off

theorem alignAxis_settled (sub : ℕ) (dim : ℤ) {off : ℕ} (hoff : off ≤ uintMax) :
    ∃ dim' off', (if sub ≠ 0 then alignAxisEven (some dim) (some off) else (some dim, some off)) =
        (some dim', some off') ∧ AxisSettled sub dim off dim' off' := by
  unfold AxisSettled
  by_cases hsub : sub ≠ 0
  · rw [if_pos hsub]
    simpa only [if_pos hsub] using alignAxisEven_spec dim hoff
  · rw [if_neg hsub]
    exact ⟨dim, off, rfl, by rw [if_neg hsub]; exact ⟨rfl, rfl⟩⟩

/-- The crop aligned axis by axis. -/
theorem alignCropEven_eq {c subW subH : ℕ} (hsub : chromaSubsample c = some (subW, subH))
    (crop : CropArgs) :
    alignCropEven c crop =
      ⟨(if subW ≠ 0 then alignAxisEven crop.w crop.x else (crop.w, crop.x)).1,
        (if subH ≠ 0 then alignAxisEven crop.h crop.y else (crop.h, crop.y)).1,
        (if subW ≠ 0 then alignAxisEven crop.w crop.x else (crop.w, crop.x)).2,
        (if subH ≠ 0 then alignAxisEven crop.h crop.y else (crop.h, crop.y)).2⟩ := by
  unfold alignCropEven
  rw [hsub]

theorem chromaSubsample_eq_none_iff (c : ℕ) :
    chromaSubsample c = none ↔ chromaHasYPlane c = false := by
  unfold chromaSubsample chromaHasYPlane
  cases chromaDescriptor c with
  | none => simp
  | some desc => cases hy : desc.layout.hasY <;> simp [hy]

theorem alignCropEven_of_no_luma {c : ℕ} (h : chromaHasYPlane c = false) (crop : CropArgs) :
    alignCropEven c crop = crop := by
  unfold alignCropEven
  rw [(chromaSubsample_eq_none_iff c).mpr h]

/-- The values a crop's pointers can point to. -/
structure CropArgs.InRange (crop : CropArgs) : Prop where
  w : ∀ v ∈ crop.w, int32.Holds v
  h : ∀ v ∈ crop.h, int32.Holds v
  x : ∀ v ∈ crop.x, v ≤ uintMax
  y : ∀ v ∈ crop.y, v ≤ uintMax

/-- **Aligning an aligned crop changes nothing.** -/
theorem alignCropEven_idem (c : ℕ) {crop : CropArgs} (hcrop : crop.InRange) :
    alignCropEven c (alignCropEven c crop) = alignCropEven c crop := by
  cases hsub : chromaSubsample c with
  | none =>
    have hluma := (chromaSubsample_eq_none_iff c).mp hsub
    rw [alignCropEven_of_no_luma hluma, alignCropEven_of_no_luma hluma]
  | some sub =>
    obtain ⟨subW, subH⟩ := sub
    have hw := alignAxisEven_idem crop.w crop.x hcrop.x
    have hh := alignAxisEven_idem crop.h crop.y hcrop.y
    rw [alignCropEven_eq hsub crop, alignCropEven_eq hsub]
    by_cases h1 : subW ≠ 0 <;> by_cases h2 : subH ≠ 0
    · simp only [if_pos h1, if_pos h2, Prod.mk.eta, hw, hh]
    · simp only [if_pos h1, if_neg h2, Prod.mk.eta, hw]
    · simp only [if_neg h1, if_pos h2, Prod.mk.eta, hh]
    · simp only [if_neg h1, if_neg h2]

/-! ### The arithmetic -/

/-- `uint64_t` -/
def uint64 : WordType := ⟨64⟩

/-- `unsigned` -/
def uint32 : WordType := ⟨32⟩

/-- `~1` in a word. -/
def evenMask (t : WordType) : ℕ := 2 ^ t.bits - 2 ^ 1

/-- `up_chroma_align_axis_even`; `none` stands for an operation that wraps. -/
def alignAxisEvenInt (dim : Option ℤ) (off : Option ℕ) : Option (Option ℤ × Option ℕ) :=
  match dim, off with
  | some dim, some off =>
    if dim ≤ 0 then pure (some 0, some off)
    else do
      let extent ← uint64.ofInt dim
      let end_ ← uint64.add off extent
      let bumped ← uint64.add off 1
      let alignedStart := bumped &&& evenMask uint64
      let alignedEnd := end_ &&& evenMask uint64
      if alignedStart > uintMax then pure (some 0, some off)
      else do
        let off' ← uint32.fit alignedStart
        let dim' ← (if alignedEnd > alignedStart then do
            let rest ← uint64.sub alignedEnd alignedStart
            int32.fit rest
          else pure 0)
        pure (some dim', some off')
  | dim, off => pure (dim.map alignDown2, off.map fun o => o &&& evenMask uint32)

/-- `up_chroma_align_crop_even` -/
def alignCropEvenInt (c : ℕ) (crop : CropArgs) : Option CropArgs :=
  match chromaSubsample c with
  | none => pure crop
  | some (subW, subH) => do
    let (w, x) ← (if subW ≠ 0 then alignAxisEvenInt crop.w crop.x else pure (crop.w, crop.x))
    let (h, y) ← (if subH ≠ 0 then alignAxisEvenInt crop.h crop.y else pure (crop.h, crop.y))
    pure ⟨w, h, x, y⟩

theorem and_evenMask {t : WordType} {v : ℕ} (ht : 1 ≤ t.bits) (hv : v < 2 ^ t.bits) :
    v &&& evenMask t = roundDown 2 v := and_highBits ht hv

/-- A full axis: an `unsigned` and an `int` add up well inside `uint64_t`, and the
interval left fits where it came from. -/
theorem alignAxisEvenInt_full {d : ℤ} {o : ℕ} (hdim : int32.Holds d) (hoff : o ≤ uintMax) :
    alignAxisEvenInt (some d) (some o) = some (alignAxisEven (some d) (some o)) := by
  have hmax : uintMax = 4294967295 := rfl
  have hint : intMax = 2147483647 := rfl
  have hd := int32_holds.mp hdim
  rw [alignAxisEven_eq]
  unfold alignAxisEvenInt
  dsimp only
  by_cases hpos : d ≤ 0
  · rw [if_pos hpos, if_pos hpos]
    rfl
  · have hup := roundUp_lt_add two_pos o
    have hdown := roundDown_le 2 (axisEnd d o)
    have hend : axisEnd d o < 2 ^ 64 := by
      rw [axisEnd]
      omega
    have hnext : o + 1 < 2 ^ 64 := by omega
    have hextent : uint64.ofInt d = some d.toNat :=
      ofInt_eq (by omega) (show d.toNat < 2 ^ 64 by omega)
    have hsum : uint64.add o d.toNat = some (axisEnd d o) := add_eq hend
    have hbump : uint64.add o 1 = some (o + 1) := add_eq hnext
    have hstart : (o + 1) &&& evenMask uint64 = roundUp 2 o := and_evenMask (by decide) hnext
    have hstop : axisEnd d o &&& evenMask uint64 = roundDown 2 (axisEnd d o) :=
      and_evenMask (by decide) hend
    rw [if_neg hpos, if_neg hpos, bind_of_eq hextent, bind_of_eq hsum, bind_of_eq hbump, hstart,
      hstop]
    by_cases hrep : roundUp 2 o > uintMax
    · rw [if_pos hrep, if_pos hrep]
      rfl
    · have hoff' : uint32.fit (roundUp 2 o) = some (roundUp 2 o) :=
        fit_eq (show roundUp 2 o < 2 ^ 32 by omega)
      rw [if_neg hrep, if_neg hrep, bind_of_eq hoff']
      by_cases hroom : roundDown 2 (axisEnd d o) > roundUp 2 o
      · have hfit : int32.Holds ((roundDown 2 (axisEnd d o) - roundUp 2 o : ℕ) : ℤ) := by
          have hge := le_roundUp two_pos o
          rw [axisEnd] at hdown hroom ⊢
          rw [int32_holds]
          omega
        have hrest : uint64.sub (roundDown 2 (axisEnd d o)) (roundUp 2 o) =
            some (roundDown 2 (axisEnd d o) - roundUp 2 o) :=
          sub_eq hroom.le (hdown.trans_lt hend)
        rw [if_pos hroom, if_pos hroom, bind_of_eq hrest, bind_of_eq (IntType.fit_eq hfit)]
        rfl
      · rw [if_neg hroom, if_neg hroom]
        rfl

theorem alignAxisEvenInt_eq {dim : Option ℤ} {off : Option ℕ} (hdim : ∀ d ∈ dim, int32.Holds d)
    (hoff : ∀ o ∈ off, o ≤ uintMax) :
    alignAxisEvenInt dim off = some (alignAxisEven dim off) := by
  cases dim with
  | none =>
    cases off with
    | none => rfl
    | some o =>
      have hlt : o < 2 ^ 32 := Nat.lt_of_le_of_lt (hoff o rfl) (by decide)
      show some (none, some (o &&& evenMask uint32)) = some (none, some (o - o % 2))
      rw [and_evenMask (t := uint32) (by decide) hlt, sub_mod_eq_roundDown]
  | some d =>
    cases off with
    | none => rfl
    | some o => exact alignAxisEvenInt_full (hdim d rfl) (hoff o rfl)

/-- **The alignment never wraps**, for any `int` extents and `unsigned`
offsets. -/
theorem alignCropEvenInt_eq (c : ℕ) {crop : CropArgs} (hcrop : crop.InRange) :
    alignCropEvenInt c crop = some (alignCropEven c crop) := by
  unfold alignCropEvenInt
  cases hsub : chromaSubsample c with
  | none =>
    rw [alignCropEven_of_no_luma ((chromaSubsample_eq_none_iff c).mp hsub)]
    rfl
  | some sub =>
    obtain ⟨subW, subH⟩ := sub
    dsimp only
    rw [alignCropEven_eq hsub, alignAxisEvenInt_eq hcrop.w hcrop.x,
      alignAxisEvenInt_eq hcrop.h hcrop.y]
    by_cases h1 : subW ≠ 0 <;> by_cases h2 : subH ≠ 0
    · simp only [if_pos h1, if_pos h2]
      rfl
    · simp only [if_pos h1, if_neg h2]
      rfl
    · simp only [if_neg h1, if_pos h2]
      rfl
    · simp only [if_neg h1, if_neg h2]
      rfl

/-- **Every subsampled axis becomes the largest even interval inside it**, in
arithmetic that never wraps; a second alignment changes nothing, and neither an
unsubsampled axis nor a chroma without a luma plane is touched. -/
theorem alignCropEven_largest (c : ℕ) :
    (∀ (w h : ℤ) (x y : ℕ), int32.Holds w → int32.Holds h → x ≤ uintMax → y ≤ uintMax →
      ∃ w' h' x' y', alignCropEven c ⟨some w, some h, some x, some y⟩ =
          ⟨some w', some h', some x', some y'⟩ ∧
        ∀ subW subH, chromaSubsample c = some (subW, subH) →
          AxisSettled subW w x w' x' ∧ AxisSettled subH h y h' y') ∧
    (∀ crop : CropArgs, crop.InRange →
      alignCropEvenInt c crop = some (alignCropEven c crop) ∧
      alignCropEven c (alignCropEven c crop) = alignCropEven c crop ∧
      (chromaHasYPlane c = false → alignCropEven c crop = crop)) := by
  constructor
  · intro w h x y _ _ hx hy
    cases hsub : chromaSubsample c with
    | none =>
      rw [alignCropEven_of_no_luma ((chromaSubsample_eq_none_iff c).mp hsub)]
      exact ⟨w, h, x, y, rfl, fun _ _ hsome => absurd hsome (by simp)⟩
    | some sub =>
      obtain ⟨subW, subH⟩ := sub
      obtain ⟨w', x', hw, hwx⟩ := alignAxis_settled subW w hx
      obtain ⟨h', y', hh, hhy⟩ := alignAxis_settled subH h hy
      refine ⟨w', h', x', y', ?_, ?_⟩
      · rw [alignCropEven_eq hsub, hw, hh]
      · rintro sw sh hsome
        obtain ⟨rfl, rfl⟩ : subW = sw ∧ subH = sh := by simpa using hsome
        exact ⟨hwx, hhy⟩
  · intro crop hcrop
    exact ⟨alignCropEvenInt_eq c hcrop, alignCropEven_idem c hcrop, fun hluma =>
      alignCropEven_of_no_luma hluma crop⟩

/-- An odd column moves in by one on both sides; the row interval at `UINT_MAX`
cannot be kept. -/
theorem alignCropEven_largest_extremes :
    alignCropEven (fourcc 'I' '4' '2' '0') ⟨some 4, some 3, some 1, some uintMax⟩ =
        ⟨some 2, some 0, some 2, some uintMax⟩ ∧
      AxisAligned 4 1 2 2 ∧ AxisAligned 3 uintMax 0 uintMax ∧
      alignCropEvenInt (fourcc 'I' '4' '2' '0') ⟨some 4, some 3, some 1, some uintMax⟩ =
        some ⟨some 2, some 0, some 2, some uintMax⟩ := by
  obtain ⟨hlaw, hall⟩ := alignCropEven_largest (fourcc 'I' '4' '2' '0')
  have hval : alignCropEven (fourcc 'I' '4' '2' '0') ⟨some 4, some 3, some 1, some uintMax⟩ =
      ⟨some 2, some 0, some 2, some uintMax⟩ := by decide
  obtain ⟨w', h', x', y', heq, hsub⟩ := hlaw 4 3 1 uintMax (by decide) (by decide) (by decide) le_rfl
  rw [hval] at heq
  injection heq with hw hh hx hy
  injection hw with hw
  injection hh with hh
  injection hx with hx
  injection hy with hy
  subst hw hh hx hy
  obtain ⟨hwx, hhy⟩ := hsub 1 1 (by decide)
  obtain ⟨hint, -, -⟩ := hall ⟨some 4, some 3, some 1, some uintMax⟩
    ⟨by decide, by decide, by decide, by decide⟩
  exact ⟨hval, hwx, hhy, hint.trans (congrArg some hval)⟩

end AutoUpscale
