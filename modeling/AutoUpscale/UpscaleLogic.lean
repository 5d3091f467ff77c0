/-
The target planner of `src/upscale_logic.h`.

`planUpscale` decides whether a source is upscaled and to which size.  What the
rest of the plugin relies on is `planUpscale_spec`: a planned target has even
dimensions, is no smaller than the source on either axis, and no dimension
exceeds `maxDim`.

C `int` values are integers; `memMb` is kept because the source keeps it, and
is as unused there as it is here.
-/
import AutoUpscale.PlaneUtils

namespace AutoUpscale

/-! ### Public constants -/

def targetAuto : ℤ := 0
def target720p : ℤ := 1
def target8K : ℤ := 6
def targetMax : ℤ := target8K

/-- `UP_MAX_RATIO` -/
def maxRatio : ℤ := 4

/-- `UP_MAX_DIM` -/
def maxDim : ℤ := 32768

/-- `INT_MAX` -/
def intMax : ℤ := 2147483647

/-- `SIZE_MAX` -/
def sizeMax : ℕ := 2 ^ 64 - 1

/-- `up_dims_t` -/
structure Dims where
  width : ℤ
  height : ℤ
  deriving DecidableEq, Repr

/-! ### The planner -/

/-- `up__clamp_even` -/
def clampEven (v : ℤ) : ℤ := if v < 0 then 0 else alignDown2 v

/-- `up__auto_target_height` -/
def autoTargetHeight (srcH cores : ℤ) : ℤ :=
  let ratioOkFor1080p := srcH ≤ intMax / maxRatio ∧ srcH * maxRatio ≥ 1080
  if cores ≥ 4 ∧ ratioOkFor1080p then 1080 else 720

/-- `up_normalize_auto_enum` -/
def normalizeAutoEnum (value maxValue : ℤ) : ℤ :=
  if value < 0 ∨ value > maxValue then 0 else value

/-- `UP_PRESET_HEIGHTS` -/
def presetHeights : List ℤ := [0, 720, 1080, 1440, 2160, 2880, 4320]

/-- `up_decide_target_height` -/
def decideTargetHeight (srcH preset cores : ℤ) (_memMb : ℕ) : ℤ :=
  if srcH ≤ 0 then 0
  else
    let cores := if cores ≤ 0 then 1 else cores
    let targetH :=
      if preset ≥ target720p ∧ preset ≤ targetMax then presetHeights.getD preset.toNat 0
      else autoTargetHeight srcH cores
    -- the 4x cap, skipped where `srcH * maxRatio` would overflow
    let targetH :=
      if srcH ≤ intMax / maxRatio then
        (if targetH > srcH * maxRatio then srcH * maxRatio else targetH)
      else targetH
    if targetH < srcH then srcH else targetH

/-- `up__dims_inputs_valid` -/
def dimsInputsValid (srcW srcH targetH : ℤ) : Bool :=
  if srcW ≤ 0 ∨ srcH ≤ 0 ∨ targetH ≤ 0 then false
  else if srcW > maxDim ∨ srcH > maxDim ∨ targetH > maxDim then false
  else true

/-- `up_compute_target_dims`: the returned flag and the contents of `*out`. -/
def computeTargetDims (srcW srcH targetH : ℤ) : Bool × Dims :=
  if ¬ dimsInputsValid srcW srcH targetH then (false, ⟨0, 0⟩)
  else
    let w64 := srcW * targetH / srcH
    let targetW := clampEven w64
    let targetHEven := clampEven targetH
    if targetW ≤ 0 ∨ targetHEven ≤ 0 then (false, ⟨0, 0⟩)
    else if targetW > maxDim ∨ targetHEven > maxDim then (false, ⟨0, 0⟩)
    else (true, ⟨targetW, targetHEven⟩)

/-- `up__plan_inputs_ok` -/
def planInputsOk (srcW srcH skipAbove preset : ℤ) : Bool :=
  if srcW ≤ 0 ∨ srcH ≤ 0 then false
  else if srcW > maxDim ∨ srcH > maxDim then false
  else if preset = targetAuto ∧ skipAbove > 0 ∧ srcH ≥ skipAbove then false
  else true

/-- `up__plan_result_ok` -/
def planResultOk (srcW srcH : ℤ) (out : Dims) : Bool :=
  if out.width < srcW ∨ out.height < srcH then false
  else if out.width = srcW ∧ out.height = srcH then false
  else true

/-- `up_plan_upscale`: the returned flag and the contents of `*out`. -/
def planUpscale (srcW srcH skipAbove preset cores : ℤ) (memMb : ℕ) : Bool × Dims :=
  if ¬ planInputsOk srcW srcH skipAbove preset then (false, ⟨0, 0⟩)
  else
    let targetH := decideTargetHeight srcH preset cores memMb
    if targetH ≤ srcH then (false, ⟨0, 0⟩)
    else
      let dims := computeTargetDims srcW srcH targetH
      if ¬ dims.1 then (false, dims.2)
      else if ¬ planResultOk srcW srcH dims.2 then (false, ⟨0, 0⟩)
      else dims

/-! ### What a plan guarantees -/

theorem clampEven_even (v : ℤ) : clampEven v % 2 = 0 := by
  unfold clampEven
  split_ifs
  · rfl
  · exact alignDown2_even v

/-- Accepted inputs have source dimensions in `[1, maxDim]`. -/
theorem planInputsOk_bounds {srcW srcH skipAbove preset : ℤ}
    (h : planInputsOk srcW srcH skipAbove preset = true) :
    0 < srcW ∧ 0 < srcH ∧ srcW ≤ maxDim ∧ srcH ≤ maxDim := by
  unfold planInputsOk at h
  split_ifs at h with h1 h2 h3
  omega

/-- Computed dimensions are even and in `[1, maxDim]`. -/
theorem computeTargetDims_bounds {srcW srcH targetH : ℤ}
    (h : (computeTargetDims srcW srcH targetH).1 = true) :
    let out := (computeTargetDims srcW srcH targetH).2
    0 < out.width ∧ 0 < out.height ∧ out.width ≤ maxDim ∧ out.height ≤ maxDim ∧
      out.width % 2 = 0 ∧ out.height % 2 = 0 := by
  unfold computeTargetDims at h ⊢
  dsimp only at h ⊢
  split_ifs at h ⊢ with h1 h2 h3
  have hw := clampEven_even (srcW * targetH / srcH)
  have hh := clampEven_even targetH
  dsimp only
  omega

/-- A successful plan, taken apart. -/
theorem planUpscale_eq_true {srcW srcH skipAbove preset cores : ℤ} {memMb : ℕ} {out : Dims}
    (h : planUpscale srcW srcH skipAbove preset cores memMb = (true, out)) :
    planInputsOk srcW srcH skipAbove preset = true ∧
      srcH < decideTargetHeight srcH preset cores memMb ∧
      computeTargetDims srcW srcH (decideTargetHeight srcH preset cores memMb) = (true, out) ∧
      planResultOk srcW srcH out = true := by
  unfold planUpscale at h
  dsimp only at h
  split_ifs at h with h1 h2 h3 h4
  -- only the last return statement reports success
  any_goals cases congrArg Prod.fst h
  rw [h] at h4
  exact ⟨h1, by omega, h, h4⟩

/-- What a planned upscale guarantees its consumers. -/
structure PlannedTarget (srcW srcH : ℤ) (out : Dims) : Prop where
  srcW_pos : 0 < srcW
  srcH_pos : 0 < srcH
  srcW_le : srcW ≤ maxDim
  srcH_le : srcH ≤ maxDim
  width_ge : srcW ≤ out.width
  height_ge : srcH ≤ out.height
  width_le : out.width ≤ maxDim
  height_le : out.height ≤ maxDim
  width_even : out.width % 2 = 0
  height_even : out.height % 2 = 0

theorem planUpscale_spec {srcW srcH skipAbove preset cores : ℤ} {memMb : ℕ} {out : Dims}
    (h : planUpscale srcW srcH skipAbove preset cores memMb = (true, out)) :
    PlannedTarget srcW srcH out := by
  obtain ⟨hin, -, hdims, hres⟩ := planUpscale_eq_true h
  obtain ⟨hw, hh, hwm, hhm⟩ := planInputsOk_bounds hin
  have hb := computeTargetDims_bounds (by rw [hdims] :
    (computeTargetDims srcW srcH (decideTargetHeight srcH preset cores memMb)).1 = true)
  rw [hdims] at hb
  obtain ⟨-, -, hdw, hdh, hwe, hhe⟩ := hb
  unfold planResultOk at hres
  split_ifs at hres with h1 h2
  exact ⟨hw, hh, hwm, hhm, by omega, by omega, hdw, hdh, hwe, hhe⟩

end AutoUpscale
