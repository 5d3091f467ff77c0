/-
The target planner as it is compiled, and its contract.

`planUpscaleInt` is the planner of `src/upscale_logic.h` with every `int` and
`int64_t` operation checked; it shares no arithmetic with `planUpscale`.

- `planUpscaleInt_eq`: no operation overflows, whatever the arguments, and the
  compiled planner is `planUpscale`.
- `planUpscale_eq_iff`: exactly which sources are upscaled, and to what.
- `planUpscale_contract`: the planner's contract.
-/
import AutoUpscale.MachineInt
import AutoUpscale.UpscaleLogic

namespace AutoUpscale

open MachineInt MachineInt.IntType

/-! ### The planner in machine arithmetic -/

/-- `int` -/
def int32 : IntType := signed 32

/-- `int64_t` -/
def int64 : IntType := signed 64

theorem int32_holds {v : ℤ} : int32.Holds v ↔ -2147483648 ≤ v ∧ v ≤ intMax := Iff.rfl

theorem int64_holds {v : ℤ} :
    int64.Holds v ↔ -9223372036854775808 ≤ v ∧ v ≤ 9223372036854775807 := Iff.rfl

/-- `up__auto_target_height` -/
def autoTargetHeightInt (srcH cores : ℤ) : Option ℤ := do
  let limit ← int32.div intMax maxRatio
  let ratioOkFor1080p ← (if srcH ≤ limit then do
      let widest ← int32.mul srcH maxRatio
      pure (decide (widest ≥ 1080))
    else pure false)
  pure (if cores ≥ 4 ∧ ratioOkFor1080p then 1080 else 720)

/-- `up_decide_target_height`; the table is read within its bounds or not at
all. -/
def decideTargetHeightInt (srcH preset cores : ℤ) (_memMb : ℕ) : Option ℤ :=
  if srcH ≤ 0 then pure 0
  else do
    let cores := if cores ≤ 0 then 1 else cores
    let targetH ← (if preset ≥ target720p ∧ preset ≤ targetMax then presetHeights[preset.toNat]?
      else autoTargetHeightInt srcH cores)
    let limit ← int32.div intMax maxRatio
    let targetH ← (if srcH ≤ limit then do
        let cap ← int32.mul srcH maxRatio
        pure (if targetH > cap then cap else targetH)
      else pure targetH)
    pure (if targetH < srcH then srcH else targetH)

/-- `up_compute_target_dims` -/
def computeTargetDimsInt (srcW srcH targetH : ℤ) : Option (Bool × Dims) :=
  if ¬ dimsInputsValid srcW srcH targetH then pure (false, ⟨0, 0⟩)
  else do
    let area ← int64.mul srcW targetH
    let w64 ← int64.div area srcH
    let w ← int32.fit w64
    let targetW := clampEven w
    let targetHEven := clampEven targetH
    if targetW ≤ 0 ∨ targetHEven ≤ 0 then pure (false, ⟨0, 0⟩)
    else if targetW > maxDim ∨ targetHEven > maxDim then pure (false, ⟨0, 0⟩)
    else pure (true, ⟨targetW, targetHEven⟩)

/-- `up_plan_upscale`: `none` stands for an operation that overflows. -/
def planUpscaleInt (srcW srcH skipAbove preset cores : ℤ) (memMb : ℕ) :
    Option (Bool × Dims) :=
  if ¬ planInputsOk srcW srcH skipAbove preset then pure (false, ⟨0, 0⟩)
  else do
    let targetH ← decideTargetHeightInt srcH preset cores memMb
    if targetH ≤ srcH then pure (false, ⟨0, 0⟩)
    else do
      let dims ← computeTargetDimsInt srcW srcH targetH
      if ¬ dims.1 then pure (false, dims.2)
      else if ¬ planResultOk srcW srcH dims.2 then pure (false, ⟨0, 0⟩)
      else pure dims

/-! ### No operation overflows -/

/-- The cap limit `INT_MAX / UP_MAX_RATIO`. -/
theorem int32_div_limit : int32.div intMax maxRatio = some (intMax / maxRatio) := by
  decide

/-- The `srcH <= INT_MAX / UP_MAX_RATIO` guard is what the product needs. -/
theorem int32_mul_cap {srcH : ℤ} (hpos : 0 < srcH) (hle : srcH ≤ intMax / maxRatio) :
    int32.mul srcH maxRatio = some (srcH * maxRatio) := by
  apply mul_eq
  rw [int32_holds]
  unfold intMax maxRatio at *
  omega

theorem autoTargetHeightInt_eq {srcH cores : ℤ} (hpos : 0 < srcH) :
    autoTargetHeightInt srcH cores = some (autoTargetHeight srcH cores) := by
  unfold autoTargetHeightInt autoTargetHeight
  rw [int32_div_limit, Option.bind_eq_bind, Option.bind_some]
  by_cases hle : srcH ≤ intMax / maxRatio
  · rw [if_pos hle, int32_mul_cap hpos hle]
    simp [hle]
  · rw [if_neg hle]
    simp [hle]

/-- An explicit preset reads the table inside its bounds. -/
theorem presetHeights_getElem {preset : ℤ} (h : preset ≥ target720p ∧ preset ≤ targetMax) :
    presetHeights[preset.toNat]? = some (presetHeights.getD preset.toNat 0) := by
  have hlt : preset.toNat < presetHeights.length := by
    obtain ⟨h1, h2⟩ := h
    unfold target720p targetMax target8K at *
    simp only [presetHeights, List.length_cons, List.length_nil]
    omega
  rw [List.getD_eq_getElem?_getD, List.getElem?_eq_getElem hlt, Option.getD_some]

theorem decideTargetHeightInt_eq (srcH preset cores : ℤ) (memMb : ℕ) :
    decideTargetHeightInt srcH preset cores memMb =
      some (decideTargetHeight srcH preset cores memMb) := by
  unfold decideTargetHeightInt decideTargetHeight
  by_cases hpos : srcH ≤ 0
  · rw [if_pos hpos, if_pos hpos, Option.pure_def]
  rw [if_neg hpos, if_neg hpos]
  have hsrc : 0 < srcH := by omega
  have htarget : (if preset ≥ target720p ∧ preset ≤ targetMax then presetHeights[preset.toNat]?
        else autoTargetHeightInt srcH (if cores ≤ 0 then 1 else cores)) =
      some (if preset ≥ target720p ∧ preset ≤ targetMax then presetHeights.getD preset.toNat 0
        else autoTargetHeight srcH (if cores ≤ 0 then 1 else cores)) := by
    by_cases hp : preset ≥ target720p ∧ preset ≤ targetMax
    · rw [if_pos hp, if_pos hp, presetHeights_getElem hp]
    · rw [if_neg hp, if_neg hp, autoTargetHeightInt_eq hsrc]
  simp only [htarget, int32_div_limit, Option.bind_eq_bind, Option.bind_some, Option.pure_def]
  by_cases hle : srcH ≤ intMax / maxRatio
  · simp only [if_pos hle, int32_mul_cap hsrc hle, Option.bind_some]
  · simp only [if_neg hle, Option.bind_some]

/-- A target within the 4x cap keeps the scaled width far inside `int`. -/
theorem computeTargetDimsInt_eq (srcW srcH targetH : ℤ) :
    computeTargetDimsInt srcW srcH targetH = some (computeTargetDims srcW srcH targetH) := by
  unfold computeTargetDimsInt computeTargetDims
  by_cases hvalid : dimsInputsValid srcW srcH targetH = true
  · rw [if_neg (not_not.mpr hvalid), if_neg (not_not.mpr hvalid)]
    unfold dimsInputsValid at hvalid
    split_ifs at hvalid with h1 h2
    have harea : 0 ≤ srcW * targetH := by
      apply mul_nonneg <;> omega
    have hareaMax : srcW * targetH ≤ 32768 * 32768 := by
      unfold maxDim at h2
      apply mul_le_mul <;> omega
    have hdiv : srcW * targetH / srcH ≤ srcW * targetH := Int.ediv_le_self srcH harea
    have hnonneg : 0 ≤ srcW * targetH / srcH := Int.ediv_nonneg harea (by omega)
    have hmul : int64.mul srcW targetH = some (srcW * targetH) :=
      mul_eq (int64_holds.mpr (by omega))
    have hquot : int64.div (srcW * targetH) srcH = some (srcW * targetH / srcH) :=
      div_eq harea (by omega) (int64_holds.mpr (by omega)) (by decide)
    have hcast : int32.fit (srcW * targetH / srcH) = some (srcW * targetH / srcH) :=
      fit_eq (int32_holds.mpr (by unfold intMax; omega))
    simp only [hmul, hquot, hcast, Option.bind_eq_bind, Option.bind_some, Option.pure_def]
    split_ifs <;> rfl
  · rw [if_pos hvalid, if_pos hvalid, Option.pure_def]

/-- **The compiled planner never overflows and is the planner over `ℤ`.** -/
theorem planUpscaleInt_eq (srcW srcH skipAbove preset cores : ℤ) (memMb : ℕ) :
    planUpscaleInt srcW srcH skipAbove preset cores memMb =
      some (planUpscale srcW srcH skipAbove preset cores memMb) := by
  unfold planUpscaleInt planUpscale
  simp only [decideTargetHeightInt_eq, computeTargetDimsInt_eq, Option.bind_eq_bind,
    Option.bind_some, Option.pure_def]
  split_ifs <;> rfl

/-! ### The decided height -/

/-- The height a preset names: the table's entry, or what AUTO picks. -/
def nominalHeight (srcH preset cores : ℤ) : ℤ :=
  if target720p ≤ preset ∧ preset ≤ targetMax then presetHeights.getD preset.toNat 0
  else autoTargetHeight srcH (if cores ≤ 0 then 1 else cores)

/-- On a plannable source the decided height is the nominal one, capped at four
times the source and never below it. -/
theorem decideTargetHeight_eq {srcH : ℤ} (hpos : 1 ≤ srcH) (hle : srcH ≤ maxDim)
    (preset cores : ℤ) (memMb : ℕ) :
    decideTargetHeight srcH preset cores memMb =
      max srcH (min (nominalHeight srcH preset cores) (maxRatio * srcH)) := by
  have hcap : srcH ≤ intMax / maxRatio := by
    unfold maxDim at hle
    unfold intMax maxRatio
    omega
  unfold decideTargetHeight
  rw [if_neg (by omega)]
  simp only [if_pos hcap]
  rw [show (if preset ≥ target720p ∧ preset ≤ targetMax then presetHeights.getD preset.toNat 0
    else autoTargetHeight srcH (if cores ≤ 0 then 1 else cores)) =
      nominalHeight srcH preset cores from rfl]
  unfold maxRatio
  split_ifs <;> omega

theorem autoTargetHeight_cases (srcH cores : ℤ) :
    autoTargetHeight srcH cores = 1080 ∨ autoTargetHeight srcH cores = 720 := by
  unfold autoTargetHeight
  dsimp only
  split_ifs
  · exact .inl rfl
  · exact .inr rfl

/-- Every height of the table is even and fits the dimension ceiling. -/
theorem presetHeights_bounds :
    ∀ height ∈ presetHeights, height % 2 = 0 ∧ 0 ≤ height ∧ height ≤ maxDim := by
  decide

theorem nominalHeight_bounds (srcH preset cores : ℤ) :
    nominalHeight srcH preset cores % 2 = 0 ∧ nominalHeight srcH preset cores ≤ maxDim := by
  unfold nominalHeight
  split_ifs with hp hc
  · have hmem := List.mem_of_getElem? (presetHeights_getElem hp)
    obtain ⟨heven, -, hmax⟩ := presetHeights_bounds _ hmem
    exact ⟨heven, hmax⟩
  · obtain h | h := autoTargetHeight_cases srcH 1 <;> rw [h] <;> decide
  · obtain h | h := autoTargetHeight_cases srcH cores <;> rw [h] <;> decide

/-- A height above the source is the capped nominal one, and even: both the
nominal heights and the cap are. -/
theorem decideTargetHeight_of_lt {srcH preset cores : ℤ} {memMb : ℕ} (hpos : 1 ≤ srcH)
    (hle : srcH ≤ maxDim) (hlt : srcH < decideTargetHeight srcH preset cores memMb) :
    decideTargetHeight srcH preset cores memMb =
        min (nominalHeight srcH preset cores) (maxRatio * srcH) ∧
      decideTargetHeight srcH preset cores memMb % 2 = 0 ∧
      decideTargetHeight srcH preset cores memMb ≤ maxDim := by
  obtain ⟨heven, hmax⟩ := nominalHeight_bounds srcH preset cores
  rw [decideTargetHeight_eq hpos hle] at hlt ⊢
  generalize nominalHeight srcH preset cores = nominal at *
  unfold maxRatio at *
  omega

/-! ### Exactly which sources are upscaled -/

theorem planInputsOk_iff {srcW srcH skipAbove preset : ℤ} :
    planInputsOk srcW srcH skipAbove preset = true ↔
      (1 ≤ srcW ∧ srcW ≤ maxDim) ∧ (1 ≤ srcH ∧ srcH ≤ maxDim) ∧
        ¬ (preset = targetAuto ∧ 0 < skipAbove ∧ skipAbove ≤ srcH) := by
  unfold planInputsOk
  split_ifs with h1 h2 h3
  · simp only [false_iff]
    omega
  · simp only [false_iff]
    omega
  · simp only [false_iff]
    exact fun h => h.2.2 h3
  · simp only [true_iff]
    exact ⟨by omega, by omega, h3⟩

/-- On an even target above the source the width alone decides. -/
theorem computeTargetDims_iff {srcW srcH targetH : ℤ} {out : Dims}
    (hw : 1 ≤ srcW ∧ srcW ≤ maxDim) (hh : 1 ≤ srcH ∧ srcH ≤ maxDim) (hlt : srcH < targetH)
    (hmax : targetH ≤ maxDim) (heven : targetH % 2 = 0) :
    computeTargetDims srcW srcH targetH = (true, out) ∧ planResultOk srcW srcH out = true ↔
      srcW ≤ alignDown2 (srcW * targetH / srcH) ∧
        alignDown2 (srcW * targetH / srcH) ≤ maxDim ∧
        out = ⟨alignDown2 (srcW * targetH / srcH), targetH⟩ := by
  have hvalid : dimsInputsValid srcW srcH targetH = true := by
    unfold dimsInputsValid
    rw [if_neg (by omega), if_neg (by omega)]
  have hquot : 0 ≤ srcW * targetH / srcH :=
    Int.ediv_nonneg (mul_nonneg (by omega) (by omega)) (by omega)
  have hwidth : clampEven (srcW * targetH / srcH) = alignDown2 (srcW * targetH / srcH) := by
    unfold clampEven
    rw [if_neg (by omega)]
  have hheight : clampEven targetH = targetH := by
    unfold clampEven alignDown2
    rw [if_neg (by omega), heven, sub_zero]
  unfold computeTargetDims
  rw [if_neg (not_not.mpr hvalid)]
  simp only [hwidth, hheight]
  generalize alignDown2 (srcW * targetH / srcH) = width
  constructor
  · rintro ⟨hdims, hres⟩
    split_ifs at hdims with h1 h2
    · cases congrArg Prod.fst hdims
    · cases congrArg Prod.fst hdims
    · obtain rfl := (Prod.mk.inj hdims).2
      unfold planResultOk at hres
      split_ifs at hres with h3 h4
      dsimp only at h3
      exact ⟨by omega, by omega, rfl⟩
  · rintro ⟨hle, hwmax, rfl⟩
    rw [if_neg (by omega), if_neg (by omega)]
    refine ⟨rfl, ?_⟩
    unfold planResultOk
    dsimp only
    rw [if_neg (by omega), if_neg (by omega)]

/-- A plan in one equation: the accepted source and the target it gets. -/
theorem planUpscale_eq_iff {srcW srcH skipAbove preset cores : ℤ} {memMb : ℕ} {out : Dims} :
    planUpscale srcW srcH skipAbove preset cores memMb = (true, out) ↔
      ((1 ≤ srcW ∧ srcW ≤ maxDim) ∧ (1 ≤ srcH ∧ srcH ≤ maxDim) ∧
        ¬ (preset = targetAuto ∧ 0 < skipAbove ∧ skipAbove ≤ srcH)) ∧
      srcH < decideTargetHeight srcH preset cores memMb ∧
      srcW ≤ alignDown2 (srcW * decideTargetHeight srcH preset cores memMb / srcH) ∧
      alignDown2 (srcW * decideTargetHeight srcH preset cores memMb / srcH) ≤ maxDim ∧
      out = ⟨alignDown2 (srcW * decideTargetHeight srcH preset cores memMb / srcH),
        decideTargetHeight srcH preset cores memMb⟩ := by
  constructor
  · intro h
    obtain ⟨hin, hlt, hdims, hres⟩ := planUpscale_eq_true h
    have hin' := planInputsOk_iff.mp hin
    obtain ⟨-, heven, hmax⟩ := decideTargetHeight_of_lt hin'.2.1.1 hin'.2.1.2 hlt
    exact ⟨hin', hlt,
      (computeTargetDims_iff hin'.1 hin'.2.1 hlt hmax heven).mp ⟨hdims, hres⟩⟩
  · rintro ⟨hin, hlt, hwidth⟩
    obtain ⟨-, heven, hmax⟩ := decideTargetHeight_of_lt hin.2.1.1 hin.2.1.2 hlt
    obtain ⟨hdims, hres⟩ :=
      (computeTargetDims_iff hin.1 hin.2.1 hlt hmax heven).mpr hwidth
    unfold planUpscale
    rw [if_neg (not_not.mpr (planInputsOk_iff.mpr hin))]
    dsimp only
    rw [if_neg (by omega), hdims, if_neg (not_not.mpr rfl), if_neg (not_not.mpr hres)]

/-- A rejected computation has zeroed the dimensions itself. -/
theorem computeTargetDims_of_false {srcW srcH targetH : ℤ}
    (h : (computeTargetDims srcW srcH targetH).1 ≠ true) :
    (computeTargetDims srcW srcH targetH).2 = ⟨0, 0⟩ := by
  unfold computeTargetDims at h ⊢
  dsimp only at h ⊢
  split_ifs at h ⊢
  · rfl
  · rfl
  · exact absurd rfl h
  · rfl

/-- A bypass leaves a zeroed target. -/
theorem planUpscale_of_false {srcW srcH skipAbove preset cores : ℤ} {memMb : ℕ}
    (h : (planUpscale srcW srcH skipAbove preset cores memMb).1 = false) :
    (planUpscale srcW srcH skipAbove preset cores memMb).2 = ⟨0, 0⟩ := by
  unfold planUpscale at h ⊢
  dsimp only at h ⊢
  split_ifs at h ⊢ with h1 h2 h3 h4
  · rfl
  · exact absurd (h.symm.trans h3) (by decide)
  · rfl
  · exact computeTargetDims_of_false h3
  · rfl

/-! ### What the planned target is -/

/-- What a planned target owes the source and the preset. -/
structure PlanLaw (srcW srcH preset : ℤ) (out : Dims) : Prop where
  width_even : out.width % 2 = 0
  height_even : out.height % 2 = 0
  width_ge : srcW ≤ out.width
  height_ge : srcH ≤ out.height
  width_le : out.width ≤ maxRatio * srcW
  height_le : out.height ≤ maxRatio * srcH
  /-- AUTO, and every unknown preset, stops at 1080 rows. -/
  auto_rows : ¬ (target720p ≤ preset ∧ preset ≤ targetMax) → out.height ≤ 1080
  /-- An explicit preset gets its own rows, short of the ratio cap. -/
  preset_rows : target720p ≤ preset ∧ preset ≤ targetMax →
    out.height = min (presetHeights.getD preset.toNat 0) (maxRatio * srcH)
  /-- The aspect drifts by less than two source columns. -/
  aspect_nonneg : 0 ≤ srcW * out.height - out.width * srcH
  aspect_lt : srcW * out.height - out.width * srcH < 2 * srcH

/-- Flooring the scaled width to an even number loses less than two columns. -/
theorem alignDown2_ediv_bounds {a b : ℤ} (hb : 0 < b) :
    0 ≤ a - alignDown2 (a / b) * b ∧ a - alignDown2 (a / b) * b < 2 * b := by
  have hmul : b * (a / b) + a % b = a := Int.mul_ediv_add_emod a b
  have hmod := Int.emod_nonneg a hb.ne'
  have hmodlt := Int.emod_lt_of_pos a hb
  obtain heven | hodd := Int.emod_two_eq_zero_or_one (a / b)
  · have hfloor : alignDown2 (a / b) = a / b := by unfold alignDown2; omega
    rw [hfloor]
    constructor <;> nlinarith
  · have hfloor : alignDown2 (a / b) = a / b - 1 := by unfold alignDown2; omega
    rw [hfloor]
    constructor <;> nlinarith

theorem planLaw_of_planUpscale {srcW srcH skipAbove preset cores : ℤ} {memMb : ℕ} {out : Dims}
    (h : planUpscale srcW srcH skipAbove preset cores memMb = (true, out)) :
    PlanLaw srcW srcH preset out := by
  obtain ⟨⟨hw, hh, -⟩, hlt, hle, -, rfl⟩ := planUpscale_eq_iff.mp h
  obtain ⟨hT, heven, -⟩ := decideTargetHeight_of_lt hh.1 hh.2 hlt
  have hcap : decideTargetHeight srcH preset cores memMb ≤ maxRatio * srcH := by
    rw [hT]
    exact min_le_right _ _
  obtain ⟨hdrift0, hdrift⟩ := alignDown2_ediv_bounds
    (a := srcW * decideTargetHeight srcH preset cores memMb) (b := srcH) (by omega)
  refine
    { width_even := alignDown2_even _
      height_even := heven
      width_ge := hle
      height_ge := hlt.le
      width_le := ?_
      height_le := hcap
      auto_rows := fun hauto => ?_
      preset_rows := fun hexp => ?_
      aspect_nonneg := hdrift0
      aspect_lt := hdrift }
  · have hscale : srcW * decideTargetHeight srcH preset cores memMb ≤
        maxRatio * srcW * srcH := by
      calc srcW * decideTargetHeight srcH preset cores memMb
          ≤ srcW * (maxRatio * srcH) := mul_le_mul_of_nonneg_left hcap (by omega)
        _ = maxRatio * srcW * srcH := by ring
    exact (alignDown2_le _).trans (Int.ediv_le_of_le_mul (by omega) hscale)
  · have hnominal : nominalHeight srcH preset cores ≤ 1080 := by
      unfold nominalHeight
      rw [if_neg hauto]
      obtain h | h := autoTargetHeight_cases srcH (if cores ≤ 0 then 1 else cores) <;> omega
    change decideTargetHeight srcH preset cores memMb ≤ 1080
    rw [hT]
    exact (min_le_left _ _).trans hnominal
  · change decideTargetHeight srcH preset cores memMb = _
    rw [hT]
    unfold nominalHeight
    rw [if_pos hexp]

/-- **The planner's contract.**  Over every argument it can be called with: no
operation overflows, the accepted sources are exactly the stated ones, a plan
obeys `PlanLaw`, and a bypass leaves a zeroed target. -/
theorem planUpscale_contract (srcW srcH skipAbove preset cores : ℤ) (memMb : ℕ) :
    planUpscaleInt srcW srcH skipAbove preset cores memMb =
        some (planUpscale srcW srcH skipAbove preset cores memMb) ∧
      ((planUpscale srcW srcH skipAbove preset cores memMb).1 = true ↔
        (1 ≤ srcW ∧ srcW ≤ maxDim) ∧ (1 ≤ srcH ∧ srcH ≤ maxDim) ∧
        ¬ (preset = targetAuto ∧ 0 < skipAbove ∧ skipAbove ≤ srcH) ∧
        srcH < decideTargetHeight srcH preset cores memMb ∧
        srcW ≤ alignDown2 (srcW * decideTargetHeight srcH preset cores memMb / srcH) ∧
        alignDown2 (srcW * decideTargetHeight srcH preset cores memMb / srcH) ≤ maxDim) ∧
      ((planUpscale srcW srcH skipAbove preset cores memMb).1 = true →
        PlanLaw srcW srcH preset (planUpscale srcW srcH skipAbove preset cores memMb).2) ∧
      ((planUpscale srcW srcH skipAbove preset cores memMb).1 = false →
        (planUpscale srcW srcH skipAbove preset cores memMb).2 = ⟨0, 0⟩) := by
  refine ⟨planUpscaleInt_eq .., ⟨fun h => ?_, ?_⟩, fun h => ?_, planUpscale_of_false⟩
  · obtain ⟨⟨hw, hh, hskip⟩, hlt, hle, hmax, -⟩ :=
      planUpscale_eq_iff.mp (Prod.ext h rfl : planUpscale srcW srcH skipAbove preset cores memMb =
        (true, (planUpscale srcW srcH skipAbove preset cores memMb).2))
    exact ⟨hw, hh, hskip, hlt, hle, hmax⟩
  · rintro ⟨hw, hh, hskip, hlt, hle, hmax⟩
    rw [planUpscale_eq_iff.mpr ⟨⟨hw, hh, hskip⟩, hlt, hle, hmax, rfl⟩]
  · exact planLaw_of_planUpscale (Prod.ext h rfl : _ = (true, _))

end AutoUpscale
