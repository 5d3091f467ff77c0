/-
Sizing and allocating a scratch buffer, with the arithmetic checked
(`src/plane_buffer.h` and the sizing half of `src/zimg_helpers.h`).

The functions named `…Int` and `…Size` are those of `PlaneBuffer` with every
`int` and `size_t` operation checked, and the allocation also lists the sizes it
asks for.

- `initPlaneLayoutInt_eq`: no `int` operation overflows.
- `allocPlaneBufferSize_spec`: no `size_t` operation wraps, and every size asked
  for is the product of lines and pitch.
-/
import AutoUpscale.AlignedInterval
import AutoUpscale.PictureContract
import AutoUpscale.PlaneBuffer
import AutoUpscale.UpscaleContract

namespace AutoUpscale

open MachineInt AlignedInterval

/-! ### Sizing -/

/-- An `unsigned` converted to `int`. -/
def intOfUnsigned (v : ℕ) : ℤ := if v ≤ 2147483647 then v else v - 4294967296

/-- `up_round_up_pitch`; `none` stands for an operation that overflows. -/
def roundUpPitchInt (w : ℤ) : Option ℤ :=
  if w ≤ 0 then pure 0
  else do
    let limit ← int32.add intMax (-(pitchAlign - 1))
    if w > limit then pure 0
    else do
      let sum ← int32.add w (pitchAlign - 1)
      -- `& ~(UP_PITCH_ALIGN - 1)` on a non-negative `int`
      int32.fit ((sum.toNat &&& (2 ^ 32 - 2 ^ 6) : ℕ) : ℤ)

/-- `up_round_up_lines` -/
def roundUpLinesInt (h : ℤ) : Option ℤ :=
  if h ≤ 0 then pure 0
  else do
    let limit ← int32.add intMax (-scratchLinePad)
    if h > limit then pure 0 else int32.add h scratchLinePad

/-- `up_chroma_dim` -/
def chromaDimInt (v sub : ℤ) : Option ℤ :=
  if v ≤ 0 ∨ sub < 0 then pure 0
  else do
    let s := if sub > 16 then 16 else sub
    let divisor ← int32.fit (2 ^ s.toNat)
    let quotient ← int32.div v divisor
    int32.add quotient (if v.tmod divisor ≠ 0 then 1 else 0)

/-- `up_plane_pitch` -/
def planePitchInt (w subW : ℤ) : Option ℤ :=
  if w ≤ 0 ∨ subW < 0 then pure 0
  else do
    let dim ← chromaDimInt w subW
    roundUpPitchInt dim

/-- `up_plane_lines` -/
def planeLinesInt (h subH : ℤ) : Option ℤ :=
  if h ≤ 0 ∨ subH < 0 then pure 0
  else do
    let dim ← chromaDimInt h subH
    roundUpLinesInt dim

/-- One value for the luma plane and one for both chroma planes. -/
def byPlane (luma chroma : ℤ) : Plane → ℤ
  | .y => luma
  | _ => chroma

/-- `init_plane_layout` -/
def initPlaneLayoutInt (width height : ℤ) (subW subH : ℕ) : Option PlaneLayout := do
  let pitch ← planePitchInt width 0
  let lines ← planeLinesInt height 0
  let chromaPitch ← planePitchInt width (intOfUnsigned subW)
  let chromaLines ← planeLinesInt height (intOfUnsigned subH)
  pure ⟨byPlane pitch chromaPitch, byPlane lines chromaLines⟩

theorem roundUpPitch_bounds {w : ℤ} (hw : w ≤ intMax) :
    0 ≤ roundUpPitch w ∧ roundUpPitch w ≤ intMax := by
  have hint : intMax = 2147483647 := rfl
  have halign : pitchAlign = 64 := rfl
  unfold roundUpPitch
  rw [halign]
  split_ifs <;> omega

/-- Rows start on aligned boundaries. -/
theorem roundUpPitch_dvd (w : ℤ) : pitchAlign ∣ roundUpPitch w := by
  unfold roundUpPitch
  split_ifs
  · exact dvd_zero _
  · exact dvd_zero _
  · exact Dvd.intro_left _ rfl

theorem roundUpLines_bounds {h : ℤ} (hh : h ≤ intMax) :
    0 ≤ roundUpLines h ∧ roundUpLines h ≤ intMax := by
  have hint : intMax = 2147483647 := rfl
  have hpad : scratchLinePad = 8 := rfl
  unfold roundUpLines
  rw [hpad]
  split_ifs <;> omega

/-- A quotient rounded up is no more than what it divides: a remainder costs at
least the unit that the rounding adds. -/
theorem ceilQuotient_bounds {v d : ℤ} (hv : 0 ≤ v) (hd : 0 < d) :
    0 ≤ v / d + (if v % d ≠ 0 then 1 else 0) ∧ v / d + (if v % d ≠ 0 then 1 else 0) ≤ v := by
  have hq : 0 ≤ v / d := Int.ediv_nonneg hv hd.le
  have hr : 0 ≤ v % d := Int.emod_nonneg v hd.ne'
  have hle : v / d ≤ v / d * d := le_mul_of_one_le_right hq hd
  have hv' : v / d * d + v % d = v := Int.ediv_mul_add_emod v d
  split_ifs <;> omega

/-- A subsampled extent is no more than the full one. -/
theorem chromaDim_le_self {v : ℤ} (sub : ℤ) (hv : 0 ≤ v) :
    0 ≤ chromaDim v sub ∧ chromaDim v sub ≤ v := by
  unfold chromaDim
  by_cases hnone : v ≤ 0 ∨ sub < 0
  · rw [if_pos hnone]
    exact ⟨le_rfl, hv⟩
  · rw [if_neg hnone]
    exact ceilQuotient_bounds hv (by positivity)

theorem chromaDim_bounds {v : ℤ} (sub : ℤ) (hv : v ≤ intMax) :
    0 ≤ chromaDim v sub ∧ chromaDim v sub ≤ intMax := by
  rcases le_total 0 v with hpos | hneg
  · obtain ⟨h0, hle⟩ := chromaDim_le_self sub hpos
    exact ⟨h0, hle.trans hv⟩
  · rw [chromaDim, if_pos (.inl hneg)]
    exact ⟨le_rfl, by decide⟩

theorem roundUpPitchInt_eq {w : ℤ} (hw : w ≤ intMax) :
    roundUpPitchInt w = some (roundUpPitch w) := by
  have hint : intMax = 2147483647 := rfl
  have halign : pitchAlign = 64 := rfl
  have hbounds := roundUpPitch_bounds hw
  have hlimit : int32.add intMax (-(pitchAlign - 1)) = some (intMax - (pitchAlign - 1)) :=
    IntType.add_eq (by decide)
  unfold roundUpPitchInt
  unfold roundUpPitch at hbounds ⊢
  by_cases hpos : w ≤ 0
  · rw [if_pos hpos, if_pos hpos]
    rfl
  · rw [if_neg hpos] at hbounds
    rw [if_neg hpos, if_neg hpos, bind_of_eq hlimit]
    by_cases hbig : w > intMax - (pitchAlign - 1)
    · rw [if_pos hbig, if_pos hbig]
      rfl
    · rw [if_neg hbig] at hbounds
      have hsum : int32.add w (pitchAlign - 1) = some (w + (pitchAlign - 1)) :=
        IntType.add_eq (int32_holds.mpr (by omega))
      have hmask : (((w + (pitchAlign - 1)).toNat &&& (2 ^ 32 - 2 ^ 6) : ℕ) : ℤ) =
          (w + (pitchAlign - 1)) / pitchAlign * pitchAlign := by
        rw [and_highBits (by decide) (by omega), roundDown, halign]
        omega
      rw [if_neg hbig, if_neg hbig, bind_of_eq hsum, hmask]
      exact IntType.fit_eq (int32_holds.mpr (by omega))

theorem roundUpLinesInt_eq {h : ℤ} (hh : h ≤ intMax) :
    roundUpLinesInt h = some (roundUpLines h) := by
  have hint : intMax = 2147483647 := rfl
  have hpad : scratchLinePad = 8 := rfl
  have hlimit : int32.add intMax (-scratchLinePad) = some (intMax - scratchLinePad) :=
    IntType.add_eq (by decide)
  unfold roundUpLinesInt roundUpLines
  by_cases hpos : h ≤ 0
  · rw [if_pos hpos, if_pos hpos]
    rfl
  · rw [if_neg hpos, if_neg hpos, bind_of_eq hlimit]
    by_cases hbig : h > intMax - scratchLinePad
    · rw [if_pos hbig, if_pos hbig]
      rfl
    · rw [if_neg hbig, if_neg hbig]
      exact IntType.add_eq (int32_holds.mpr (by omega))

theorem chromaDimInt_eq {v sub : ℤ} (hv : v ≤ intMax) :
    chromaDimInt v sub = some (chromaDim v sub) := by
  have hint : intMax = 2147483647 := rfl
  have hbounds := chromaDim_bounds sub hv
  unfold chromaDimInt
  unfold chromaDim at hbounds ⊢
  by_cases hnone : v ≤ 0 ∨ sub < 0
  · rw [if_pos hnone, if_pos hnone]
    rfl
  · rw [if_neg hnone] at hbounds
    rw [if_neg hnone, if_neg hnone]
    have hs : (if sub > 16 then 16 else sub).toNat ≤ 16 := by
      split_ifs <;> omega
    dsimp only at hbounds ⊢
    generalize (if sub > 16 then 16 else sub) = s at hs hbounds ⊢
    have hpos : (0 : ℤ) < 2 ^ s.toNat := by positivity
    have hle : (2 : ℤ) ^ s.toNat ≤ 2 ^ 16 := pow_le_pow_right₀ (by norm_num) hs
    have hdivisor : int32.fit (2 ^ s.toNat) = some (2 ^ s.toNat) :=
      IntType.fit_eq (int32_holds.mpr (by omega))
    have hquotient : int32.div v (2 ^ s.toNat) = some (v / 2 ^ s.toNat) :=
      IntType.div_eq (by omega) hpos (int32_holds.mpr (by omega)) (by decide)
    rw [bind_of_eq hdivisor, bind_of_eq hquotient, Int.tmod_eq_emod_of_nonneg (by omega)]
    exact IntType.add_eq (int32_holds.mpr (by omega))

theorem planePitchInt_eq {w sub : ℤ} (hw : w ≤ intMax) :
    planePitchInt w sub = some (planePitch w sub) := by
  unfold planePitchInt planePitch
  split_ifs
  · rfl
  · rw [bind_of_eq (chromaDimInt_eq hw)]
    exact roundUpPitchInt_eq (chromaDim_bounds sub hw).2

theorem planeLinesInt_eq {h sub : ℤ} (hh : h ≤ intMax) :
    planeLinesInt h sub = some (planeLines h sub) := by
  unfold planeLinesInt planeLines
  split_ifs
  · rfl
  · rw [bind_of_eq (chromaDimInt_eq hh)]
    exact roundUpLinesInt_eq (chromaDim_bounds sub hh).2

theorem planePitch_le {w sub : ℤ} (hw : w ≤ intMax) : planePitch w sub ≤ intMax := by
  unfold planePitch
  split_ifs
  · decide
  · exact (roundUpPitch_bounds (chromaDim_bounds sub hw).2).2

theorem planeLines_le {h sub : ℤ} (hh : h ≤ intMax) : planeLines h sub ≤ intMax := by
  unfold planeLines
  split_ifs
  · decide
  · exact (roundUpLines_bounds (chromaDim_bounds sub hh).2).2

/-- **Sizing never overflows**, for any `int` size and `unsigned` exponents. -/
theorem initPlaneLayoutInt_eq {width height : ℤ} (hw : width ≤ intMax) (hh : height ≤ intMax)
    (subW subH : ℕ) :
    initPlaneLayoutInt width height subW subH =
      some ⟨byPlane (planePitch width 0) (planePitch width (intOfUnsigned subW)),
        byPlane (planeLines height 0) (planeLines height (intOfUnsigned subH))⟩ := by
  unfold initPlaneLayoutInt
  rw [bind_of_eq (planePitchInt_eq hw), bind_of_eq (planeLinesInt_eq hh),
    bind_of_eq (planePitchInt_eq hw), bind_of_eq (planeLinesInt_eq hh)]
  rfl

/-- Exponents that `int` can hold keep their value. -/
theorem initPlaneLayoutInt_of_le {width height : ℤ} (hw : width ≤ intMax) (hh : height ≤ intMax)
    {subW subH : ℕ} (hsubW : (subW : ℤ) ≤ intMax) (hsubH : (subH : ℤ) ≤ intMax) :
    initPlaneLayoutInt width height subW subH = some (initPlaneLayout width height subW subH) := by
  have hint : intMax = 2147483647 := rfl
  have hkeep : ∀ v : ℕ, (v : ℤ) ≤ intMax → intOfUnsigned v = v := by
    intro v hv
    unfold intOfUnsigned
    rw [if_pos (by omega)]
  have hlayout : ∀ a b c d : ℤ, PlaneLayout.mk (byPlane a b) (byPlane c d) =
      ⟨fun | .y => a | _ => b, fun | .y => c | _ => d⟩ := by
    intro a b c d
    rw [PlaneLayout.mk.injEq]
    constructor <;> funext q <;> cases q <;> rfl
  rw [initPlaneLayoutInt_eq hw hh, hkeep subW hsubW, hkeep subH hsubH, hlayout]
  rfl

/-! ### Allocating -/

/-- `plane_alloc_bytes` -/
def planeAllocBytesSize (lines pitch : ℤ) : Option ℕ :=
  if lines ≤ 0 ∨ pitch ≤ 0 then pure 0
  else do
    let l ← sizeT.ofInt lines
    let pp ← sizeT.ofInt pitch
    let limit ← sizeT.div sizeMax pp
    if l > limit then pure 0 else sizeT.mul l pp

/-- The loop of `plane_buffer_bytes` over the planes still to count. -/
def planeBytesSize (layout : PlaneLayout) : List Plane → ℕ → Option ℕ
  | [], bytes => pure bytes
  | p :: ps, bytes => do
    let planeBytes ← planeAllocBytesSize (layout.lines p) (layout.pitch p)
    let room ← sizeT.sub sizeMax bytes
    if planeBytes > room then pure sizeMax
    else do
      let bytes ← sizeT.add bytes planeBytes
      planeBytesSize layout ps bytes

/-- `plane_buffer_bytes` -/
def planeBufferBytesSize (buffer : PlaneBuffer) : Option ℕ :=
  planeBytesSize buffer.layout [.y, .u, .v] 0

/-- The outcome of an allocation: its success, the buffer, and what was asked of
`aligned_alloc` for each plane. -/
structure PlaneAllocation where
  ok : Bool
  buffer : PlaneBuffer
  requests : List (Plane × ℕ)

/-- The loop of `alloc_plane_buffer` over the planes still to allocate. -/
def allocPlanesSize (alloc : Plane → Option ℕ) :
    List Plane → PlaneBuffer → Option PlaneAllocation
  | [], buffer => pure ⟨true, buffer, []⟩
  | p :: ps, buffer => do
    let bytes ← planeAllocBytesSize (buffer.layout.lines p) (buffer.layout.pitch p)
    if bytes = 0 then pure ⟨false, buffer, []⟩
    else
      match alloc p with
      | none => pure ⟨false, { buffer with data := Function.update buffer.data p 0 }, [(p, bytes)]⟩
      | some a => do
        let rest ← allocPlanesSize alloc ps { buffer with data := Function.update buffer.data p a }
        pure { rest with requests := (p, bytes) :: rest.requests }

/-- `alloc_plane_buffer` -/
def allocPlaneBufferSize (buffer : PlaneBuffer) (alloc : Plane → Option ℕ) :
    Option PlaneAllocation := do
  let bytes ← planeBufferBytesSize buffer
  if bytes = sizeMax then pure ⟨false, buffer, []⟩ else allocPlanesSize alloc [.y, .u, .v] buffer

/-- The values of a layout fit `int`. -/
def PlaneLayout.InRange (layout : PlaneLayout) : Prop :=
  ∀ q, layout.lines q ≤ intMax ∧ layout.pitch q ≤ intMax

/-- A request for exactly the bytes of a plane, none wrapped away. -/
structure ExactRequest (layout : PlaneLayout) (request : Plane × ℕ) : Prop where
  pos : 0 < request.2
  exact : (request.2 : ℤ) = layout.lines request.1 * layout.pitch request.1
  le_max : request.2 ≤ sizeMax

theorem planeAllocBytesSize_eq {lines pitch : ℤ} (hl : lines ≤ intMax) (hp : pitch ≤ intMax) :
    planeAllocBytesSize lines pitch = some (planeAllocBytes lines pitch) := by
  have hint : intMax = 2147483647 := rfl
  unfold planeAllocBytesSize planeAllocBytes
  by_cases hnone : lines ≤ 0 ∨ pitch ≤ 0
  · rw [if_pos hnone, if_pos hnone]
    rfl
  · have hlines : sizeT.ofInt lines = some lines.toNat :=
      WordType.ofInt_eq (by omega) (show lines.toNat < 2 ^ 64 by omega)
    have hpitch : sizeT.ofInt pitch = some pitch.toNat :=
      WordType.ofInt_eq (by omega) (show pitch.toNat < 2 ^ 64 by omega)
    have hlimit : sizeT.div sizeMax pitch.toNat = some (sizeMax / pitch.toNat) :=
      WordType.div_eq (by omega) (show sizeMax < 2 ^ 64 by decide)
    rw [if_neg hnone, if_neg hnone, bind_of_eq hlines, bind_of_eq hpitch, bind_of_eq hlimit]
    by_cases hbig : lines.toNat > sizeMax / pitch.toNat
    · rw [if_pos hbig, if_pos hbig]
      rfl
    · -- the product the guard lets through
      have hfit : lines.toNat * pitch.toNat ≤ sizeMax :=
        (Nat.le_div_iff_mul_le (by omega)).mp (not_lt.mp hbig)
      rw [if_neg hbig, if_neg hbig]
      exact WordType.mul_eq (hfit.trans_lt (show sizeMax < 2 ^ 64 by decide))

/-- A size that is not refused is the exact product. -/
theorem planeAllocBytes_exact (layout : PlaneLayout) (q : Plane)
    (h : planeAllocBytes (layout.lines q) (layout.pitch q) ≠ 0) :
    ExactRequest layout (q, planeAllocBytes (layout.lines q) (layout.pitch q)) := by
  unfold planeAllocBytes at h ⊢
  split_ifs at h ⊢ with hnone hbig
  · exact absurd rfl h
  · exact absurd rfl h
  · refine ⟨Nat.pos_of_ne_zero h, ?_, ?_⟩
    · push_cast
      rw [Int.toNat_of_nonneg (by omega), Int.toNat_of_nonneg (by omega)]
    · exact (Nat.le_div_iff_mul_le (by omega)).mp (not_lt.mp hbig)

/-- Where no product can wrap, the size is the product. -/
theorem planeAllocBytes_eq_mul {lines pitch : ℤ} (hl : lines ≤ intMax) (hp : pitch ≤ intMax) :
    planeAllocBytes lines pitch = lines.toNat * pitch.toNat := by
  have hint : intMax = 2147483647 := rfl
  have hmax : sizeMax = 18446744073709551615 := rfl
  unfold planeAllocBytes
  by_cases hnone : lines ≤ 0 ∨ pitch ≤ 0
  · rw [if_pos hnone]
    rcases hnone with h | h
    · rw [Int.toNat_of_nonpos h, zero_mul]
    · rw [Int.toNat_of_nonpos h, mul_zero]
  · have hfit : lines.toNat * pitch.toNat ≤ sizeMax :=
      calc lines.toNat * pitch.toNat ≤ 2147483647 * 2147483647 :=
            Nat.mul_le_mul (by omega) (by omega)
        _ ≤ sizeMax := by decide
    rw [if_neg hnone, if_neg]
    exact not_lt.mpr ((Nat.le_div_iff_mul_le (by omega)).mpr hfit)

/-- A saturated sum stays saturated. -/
theorem planeBytes_saturated (layout : PlaneLayout) (ps : List Plane) :
    ps.foldl (fun bytes p =>
      let planeBytes := planeAllocBytes (layout.lines p) (layout.pitch p)
      if planeBytes > sizeMax - bytes then sizeMax else bytes + planeBytes) sizeMax = sizeMax := by
  induction ps with
  | nil => rfl
  | cons p ps ih =>
    rw [List.foldl_cons]
    dsimp only at ih ⊢
    by_cases hpos : planeAllocBytes (layout.lines p) (layout.pitch p) > sizeMax - sizeMax
    · rw [if_pos hpos]
      exact ih
    · rw [if_neg hpos, show planeAllocBytes (layout.lines p) (layout.pitch p) = 0 by omega, add_zero]
      exact ih

theorem planeBytesSize_eq {layout : PlaneLayout} (hlayout : layout.InRange) (ps : List Plane)
    {bytes : ℕ} (hbytes : bytes ≤ sizeMax) :
    planeBytesSize layout ps bytes = some (ps.foldl (fun bytes p =>
      let planeBytes := planeAllocBytes (layout.lines p) (layout.pitch p)
      if planeBytes > sizeMax - bytes then sizeMax else bytes + planeBytes) bytes) := by
  have hmax : sizeMax < 2 ^ 64 := by decide
  induction ps generalizing bytes with
  | nil => rfl
  | cons p ps ih =>
    have hroom : sizeT.sub sizeMax bytes = some (sizeMax - bytes) := WordType.sub_eq hbytes hmax
    unfold planeBytesSize
    rw [bind_of_eq (planeAllocBytesSize_eq (hlayout p).1 (hlayout p).2), bind_of_eq hroom,
      List.foldl_cons]
    dsimp only at ih ⊢
    by_cases hfull : planeAllocBytes (layout.lines p) (layout.pitch p) > sizeMax - bytes
    · rw [if_pos hfull, if_pos hfull]
      exact (congrArg some (planeBytes_saturated layout ps)).symm
    · have hsum : sizeT.add bytes (planeAllocBytes (layout.lines p) (layout.pitch p)) =
          some (bytes + planeAllocBytes (layout.lines p) (layout.pitch p)) :=
        WordType.add_eq (show _ < 2 ^ 64 by omega)
      rw [if_neg hfull, if_neg hfull, bind_of_eq hsum]
      exact ih (by omega)

theorem planeBufferBytesSize_eq {buffer : PlaneBuffer} (h : buffer.layout.InRange) :
    planeBufferBytesSize buffer = some (planeBufferBytes buffer) :=
  planeBytesSize_eq h _ (Nat.zero_le _)

/-- What an allocation of the planes `ps` did. -/
structure PlanesAllocated (alloc : Plane → Option ℕ) (ps : List Plane) (buffer : PlaneBuffer)
    (r : PlaneAllocation) : Prop where
  agrees : (r.ok, r.buffer) = allocPlanes alloc ps buffer
  requests : ∀ request ∈ r.requests, ExactRequest buffer.layout request
  all : r.ok = true → r.requests.map Prod.fst = ps
  placed : r.ok = true → ∀ q ∈ ps, alloc q = some (r.buffer.data q)
  kept : ∀ q, q ∉ ps → r.buffer.data q = buffer.data q

/-- The loop asks for exact sizes only, one plane after the other. -/
theorem allocPlanesSize_spec (alloc : Plane → Option ℕ) {ps : List Plane} (hnodup : ps.Nodup)
    (buffer : PlaneBuffer) (hlayout : buffer.layout.InRange) :
    ∃ r, allocPlanesSize alloc ps buffer = some r ∧ PlanesAllocated alloc ps buffer r := by
  induction ps generalizing buffer with
  | nil =>
    exact ⟨_, rfl, rfl, by simp, fun _ => rfl, by simp, fun _ _ => rfl⟩
  | cons p ps ih =>
    obtain ⟨hp, hps⟩ := List.nodup_cons.mp hnodup
    have hbytes := planeAllocBytesSize_eq (hlayout p).1 (hlayout p).2
    have hexact := planeAllocBytes_exact buffer.layout p
    unfold allocPlanesSize
    rw [bind_of_eq hbytes]
    by_cases hzero : planeAllocBytes (buffer.layout.lines p) (buffer.layout.pitch p) = 0
    · rw [if_pos hzero]
      refine ⟨_, rfl, ?_, by simp, by simp, by simp, fun _ _ => rfl⟩
      rw [allocPlanes, if_pos hzero]
    rw [if_neg hzero]
    cases halloc : alloc p with
    | none =>
      refine ⟨_, rfl, ?_, ?_, by simp, by simp, ?_⟩
      · rw [allocPlanes, if_neg hzero, halloc]
      · intro request hmem
        rw [List.mem_singleton.mp hmem]
        exact hexact hzero
      · intro q hq
        exact Function.update_of_ne (List.ne_of_not_mem_cons hq) _ _
    | some a =>
      obtain ⟨r, hr, hspec⟩ := ih hps
        { buffer with data := Function.update buffer.data p a } hlayout
      dsimp only
      rw [bind_of_eq hr]
      refine ⟨_, rfl, ?_, ?_, ?_, ?_, ?_⟩
      · rw [allocPlanes, if_neg hzero, halloc]
        exact hspec.agrees
      · intro request hmem
        rcases List.mem_cons.mp hmem with rfl | hmem
        · exact hexact hzero
        · exact hspec.requests request hmem
      · intro hok
        rw [List.map_cons, hspec.all hok]
      · intro hok q hq
        rcases List.mem_cons.mp hq with rfl | hq
        · -- later planes leave this pointer alone
          rw [halloc, hspec.kept q hp]
          exact congrArg some (Function.update_self q a buffer.data).symm
        · exact hspec.placed hok q hq
      · intro q hq
        rw [hspec.kept q (List.not_mem_of_not_mem_cons hq)]
        exact Function.update_of_ne (List.ne_of_not_mem_cons hq) _ _

/-- What `alloc_plane_buffer` promises: a rejection, or three planes of exactly
`lines * pitch` bytes. -/
structure BufferAllocated (alloc : Plane → Option ℕ) (buffer : PlaneBuffer)
    (r : PlaneAllocation) : Prop where
  agrees : (r.ok, r.buffer) = allocPlaneBuffer buffer alloc
  layout : r.buffer.layout = buffer.layout
  requests : ∀ request ∈ r.requests, ExactRequest buffer.layout request
  all : r.ok = true → r.requests.map Prod.fst = [.y, .u, .v]
  placed : r.ok = true → ∀ q, alloc q = some (r.buffer.data q)

/-- **An allocation is rejected or exact.** -/
theorem allocPlaneBufferSize_spec (buffer : PlaneBuffer) (hlayout : buffer.layout.InRange)
    (alloc : Plane → Option ℕ) :
    ∃ r, allocPlaneBufferSize buffer alloc = some r ∧ BufferAllocated alloc buffer r := by
  have hkeep := allocPlaneBuffer_layout buffer alloc
  unfold allocPlaneBufferSize
  rw [bind_of_eq (planeBufferBytesSize_eq hlayout)]
  by_cases hfull : planeBufferBytes buffer = sizeMax
  · rw [if_pos hfull]
    refine ⟨_, rfl, ?_, rfl, by simp, by simp, by simp⟩
    rw [allocPlaneBuffer, if_pos hfull]
  · rw [if_neg hfull]
    obtain ⟨r, hr, hspec⟩ := allocPlanesSize_spec alloc
      (show [Plane.y, .u, .v].Nodup by decide) buffer hlayout
    have hagrees : (r.ok, r.buffer) = allocPlaneBuffer buffer alloc := by
      rw [allocPlaneBuffer, if_neg hfull]
      exact hspec.agrees
    refine ⟨r, hr, hagrees, ?_, hspec.requests, hspec.all, ?_⟩
    · rw [← hkeep, ← hagrees]
    · intro hok q
      refine hspec.placed hok q ?_
      cases q <;> decide

end AutoUpscale
