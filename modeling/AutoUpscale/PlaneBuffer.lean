/-
Scratch planes of the zimg backend (`src/plane_buffer.h` and the sizing half of
`src/zimg_helpers.h`).

- `le_planePitch`: a scratch row takes a full row of its plane.
- `allocPlaneBuffer_layout`: an allocation never changes the layout.
-/
import AutoUpscale.UpscaleLogic
import Mathlib.Logic.Function.Basic

namespace AutoUpscale

/-! ### Sizing -/

/-- `UP_PITCH_ALIGN` -/
def pitchAlign : ℤ := 64

/-- `UP_SCRATCH_LINE_PAD` -/
def scratchLinePad : ℤ := 8

/-- `up_round_up_pitch` -/
def roundUpPitch (w : ℤ) : ℤ :=
  if w ≤ 0 then 0
  else if w > intMax - (pitchAlign - 1) then 0
  else (w + (pitchAlign - 1)) / pitchAlign * pitchAlign

/-- `up_round_up_lines` -/
def roundUpLines (h : ℤ) : ℤ :=
  if h ≤ 0 then 0 else if h > intMax - scratchLinePad then 0 else h + scratchLinePad

/-- `up_chroma_dim` -/
def chromaDim (v sub : ℤ) : ℤ :=
  if v ≤ 0 ∨ sub < 0 then 0
  else
    let s := if sub > 16 then 16 else sub
    let divisor : ℤ := 2 ^ s.toNat
    v / divisor + if v % divisor ≠ 0 then 1 else 0

/-- `up_plane_pitch` -/
def planePitch (w subW : ℤ) : ℤ :=
  if w ≤ 0 ∨ subW < 0 then 0 else roundUpPitch (chromaDim w subW)

/-- `up_plane_lines` -/
def planeLines (h subH : ℤ) : ℤ :=
  if h ≤ 0 ∨ subH < 0 then 0 else roundUpLines (chromaDim h subH)

/-! ### Buffers -/

/-- `PLANE_Y`, `PLANE_U`, `PLANE_V` -/
inductive Plane
  | y | u | v
  deriving DecidableEq, Repr

/-- The value of the enumerator. -/
def Plane.index : Plane → ℕ
  | .y => 0
  | .u => 1
  | .v => 2

/-- The shift of a plane when chroma is subsampled by `sub`. -/
def Plane.shift (p : Plane) (sub : ℕ) : ℕ :=
  match p with
  | .y => 0
  | _ => sub

/-- How far `v` luma samples reach in a plane. -/
def Plane.extent (p : Plane) (sub : ℕ) (v : ℤ) : ℕ := v.toNat / 2 ^ p.shift sub

/-- `plane_view_t`; NULL is 0. -/
structure PlaneView where
  data : Plane → ℕ
  pitch : Plane → ℤ

/-- `plane_layout_t` -/
structure PlaneLayout where
  pitch : Plane → ℤ
  lines : Plane → ℤ

/-- `plane_buffer_t` -/
structure PlaneBuffer where
  data : Plane → ℕ
  layout : PlaneLayout

/-- `plane_alloc_bytes` -/
def planeAllocBytes (lines pitch : ℤ) : ℕ :=
  if lines ≤ 0 ∨ pitch ≤ 0 then 0
  else if lines.toNat > sizeMax / pitch.toNat then 0
  else lines.toNat * pitch.toNat

/-- `plane_buffer_view` -/
def planeBufferView (buffer : PlaneBuffer) : PlaneView :=
  ⟨buffer.data, buffer.layout.pitch⟩

/-- `free_plane_buffer` -/
def freePlaneBuffer (buffer : PlaneBuffer) : PlaneBuffer :=
  { buffer with data := fun _ => 0 }

/-- `init_plane_layout` -/
def initPlaneLayout (width height : ℤ) (subW subH : ℕ) : PlaneLayout where
  pitch
    | .y => planePitch width 0
    | _ => planePitch width subW
  lines
    | .y => planeLines height 0
    | _ => planeLines height subH

/-- `plane_buffer_bytes` -/
def planeBufferBytes (buffer : PlaneBuffer) : ℕ :=
  [Plane.y, .u, .v].foldl
    (fun bytes p =>
      let planeBytes := planeAllocBytes (buffer.layout.lines p) (buffer.layout.pitch p)
      if planeBytes > sizeMax - bytes then sizeMax else bytes + planeBytes) 0

/-- The loop of `alloc_plane_buffer`; `alloc` says where the allocator puts each
plane, `none` being a failure. -/
def allocPlanes (alloc : Plane → Option ℕ) : List Plane → PlaneBuffer → Bool × PlaneBuffer
  | [], buffer => (true, buffer)
  | p :: ps, buffer =>
    if planeAllocBytes (buffer.layout.lines p) (buffer.layout.pitch p) = 0 then (false, buffer)
    else
      match alloc p with
      | none => (false, { buffer with data := Function.update buffer.data p 0 })
      | some a => allocPlanes alloc ps { buffer with data := Function.update buffer.data p a }

/-- `alloc_plane_buffer` -/
def allocPlaneBuffer (buffer : PlaneBuffer) (alloc : Plane → Option ℕ) : Bool × PlaneBuffer :=
  if planeBufferBytes buffer = sizeMax then (false, buffer)
  else allocPlanes alloc [.y, .u, .v] buffer

/-! ### Layouts -/

theorem allocPlanes_layout (alloc : Plane → Option ℕ) (ps : List Plane) (buffer : PlaneBuffer) :
    (allocPlanes alloc ps buffer).2.layout = buffer.layout := by
  induction ps generalizing buffer with
  | nil => rfl
  | cons p ps ih =>
    unfold allocPlanes
    split
    · rfl
    split
    · rfl
    · exact ih _

theorem allocPlaneBuffer_layout (buffer : PlaneBuffer) (alloc : Plane → Option ℕ) :
    (allocPlaneBuffer buffer alloc).2.layout = buffer.layout := by
  unfold allocPlaneBuffer
  split
  · rfl
  · exact allocPlanes_layout _ _ _

/-- On a multiple of the factor the subsampled extent is exact. -/
theorem chromaDim_of_dvd {v : ℤ} {sub : ℕ} (hv : 0 < v) (hsub : sub ≤ 1)
    (h : (2 : ℤ) ^ sub ∣ v) : chromaDim v sub = v / 2 ^ sub := by
  unfold chromaDim
  rw [if_neg (by omega), if_neg (by omega)]
  simp only [Int.toNat_natCast, Int.emod_eq_zero_of_dvd h, ne_eq, not_true_eq_false, if_false,
    add_zero]

theorem le_roundUpPitch {w : ℤ} (h : w ≤ maxDim) : w ≤ roundUpPitch w := by
  unfold roundUpPitch
  have hmax : maxDim = 32768 := rfl
  have hint : intMax = 2147483647 := rfl
  have halign : pitchAlign = 64 := rfl
  split
  · assumption
  split
  · omega
  · rw [halign]
    omega

/-- A scratch row takes a row of the plane. -/
theorem le_planePitch {w : ℤ} {sub : ℕ} (hw : 0 < w) (hmax : w ≤ maxDim) (hsub : sub ≤ 1)
    (h : (2 : ℤ) ^ sub ∣ w) : w / 2 ^ sub ≤ planePitch w sub := by
  unfold planePitch
  rw [if_neg (by omega), chromaDim_of_dvd hw hsub h]
  exact le_roundUpPitch ((Int.ediv_le_self _ hw.le).trans hmax)

namespace Plane

variable {q : Plane} {sub : ℕ} {a b v : ℤ}

theorem dvd_of_shift (q : Plane) (h : (2 : ℤ) ^ sub ∣ v) : (2 : ℤ) ^ q.shift sub ∣ v := by
  cases q
  · exact one_dvd v
  · exact h
  · exact h

theorem extent_mono (q : Plane) (sub : ℕ) (h : a ≤ b) : q.extent sub a ≤ q.extent sub b :=
  Nat.div_le_div_right (Int.toNat_le_toNat h)

theorem extent_of_nonpos (h : v ≤ 0) : q.extent sub v = 0 := by
  rw [extent, Int.toNat_of_nonpos h, Nat.zero_div]

@[simp] theorem extent_zero (q : Plane) (sub : ℕ) : q.extent sub 0 = 0 := extent_of_nonpos le_rfl

theorem cast_extent (h : 0 ≤ v) : (q.extent sub v : ℤ) = v / 2 ^ q.shift sub := by
  rw [extent, Int.natCast_div, Int.toNat_of_nonneg h]
  norm_num

/-- The shifts of the source are divisions. -/
theorem shiftRight_eq_extent (h : 0 ≤ v) (hq : q ≠ .y) : v >>> sub = q.extent sub v := by
  have hshift : q.shift sub = sub := by
    cases q
    · exact absurd rfl hq
    · rfl
    · rfl
  rw [cast_extent h, hshift, Int.shiftRight_eq_div_pow]
  norm_num

/-- Extents of aligned positions add up. -/
theorem cast_extent_sub (ha : 0 ≤ a) (hab : a ≤ b) (h : (2 : ℤ) ^ sub ∣ a) :
    (q.extent sub (b - a) : ℤ) = q.extent sub b - q.extent sub a := by
  rw [cast_extent (by omega), cast_extent (by omega), cast_extent ha,
    Int.sub_ediv_of_dvd _ (q.dvd_of_shift h)]

theorem extent_add (ha : 0 ≤ a) (hab : a ≤ b) (h : (2 : ℤ) ^ sub ∣ a) :
    q.extent sub a + q.extent sub (b - a) = q.extent sub b := by
  have hcast := cast_extent_sub (q := q) ha hab h
  omega

end Plane

theorem chromaDim_eq_extent {q : Plane} (hq : q ≠ .y) {v : ℤ} {sub : ℕ} (hsub : sub ≤ 1)
    (h : (2 : ℤ) ^ sub ∣ v) : chromaDim v sub = q.extent sub v := by
  rcases lt_or_ge 0 v with hv | hv
  · rw [chromaDim_of_dvd hv hsub h, Plane.cast_extent hv.le]
    cases q
    · exact absurd rfl hq
    · rfl
    · rfl
  · rw [Plane.extent_of_nonpos hv, chromaDim, if_pos (.inl hv), Nat.cast_zero]

/-- The pitch of a scratch plane takes a row of it. -/
theorem le_initPlaneLayout {w h : ℤ} {subW subH : ℕ} (q : Plane) (hmax : w ≤ maxDim)
    (hsub : subW ≤ 1) (hdvd : (2 : ℤ) ^ subW ∣ w) :
    q.extent subW w ≤ ((initPlaneLayout w h subW subH).pitch q).toNat := by
  rcases lt_or_ge 0 w with hw | hw
  · have hle : (q.extent subW w : ℤ) ≤ (initPlaneLayout w h subW subH).pitch q := by
      rw [Plane.cast_extent hw.le]
      cases q
      · exact le_planePitch hw hmax (Nat.zero_le 1) (one_dvd w)
      · exact le_planePitch hw hmax hsub hdvd
      · exact le_planePitch hw hmax hsub hdvd
    omega
  · rw [Plane.extent_of_nonpos hw]
    exact Nat.zero_le _

end AutoUpscale
