/-
The fixed-point unsharp mask stays within a proven error of the exact one.

The two passes of the kernels are the two rounded stages of a [1 2 1] smoothing
(`usmBlurAt_eq`), and the division of the sharpening product rounds down
(`floorDivQ8_eq`).  `usmAtInt` is a pixel with every operation in the type C
computes it in.

* **`usm_error_bounded`** — at every pixel, borders included, the blur lies
  within [-1/2, 1] of the exact convolution, the output within
  (-a/256 - 1, a/512] of the exact unsharp mask, and nothing overflows.
-/
import AutoUpscale.RoundedStencil
import AutoUpscale.MachineInt
import AutoUpscale.UpscaleContract
import AutoUpscale.Usm

namespace AutoUpscale

open MachineInt MachineInt.IntType RoundedStencil PlaneMemory

/-! ### The passes as rounded stages -/

/-- The pixels of a plane as integers. -/
def pixelInts (plane : ℕ → ℕ → UInt8) (y x : ℕ) : ℤ := (plane y x).toNat

theorem pixel_bounds (v : UInt8) : (0 : ℤ) ≤ v.toNat ∧ (v.toNat : ℤ) ≤ 255 := by
  have := v.toNat_lt
  omega

/-- The first pass is the first stage. -/
theorem hblurAt_eq (row : ℕ → UInt8) {w x : ℕ} (hx : x < w) :
    ((hblurAt row w x).toNat : ℤ) = smoothRow (fun x => (row x).toNat) w x := by
  have hnat : ∀ n : ℕ, n ≤ 255 → (UInt8.ofNat n).toNat = n := by
    intro n hn
    rw [UInt8.toNat_ofNat']
    omega
  have hlt : ∀ k, (row k).toNat ≤ 255 := fun k => by
    have := (row k).toNat_lt
    omega
  unfold hblurAt smoothRow tap before after
  by_cases hw : w = 1
  · -- a single column: all three neighbours are the pixel itself
    obtain rfl : x = 0 := by omega
    rw [if_pos hw, if_neg (by omega), if_neg (by omega), hw]
    show ((row 0).toNat : ℤ) = ((row 0).toNat + 2 * (row 0).toNat + (row 0).toNat + 2) / 4
    omega
  rw [if_neg hw]
  by_cases h0 : x = 0
  · have hr0 := hlt 0
    have hr1 := hlt 1
    rw [if_pos h0, h0, if_neg (by omega), if_pos (by omega), hnat _ (by omega), zero_add]
    dsimp only
    omega
  rw [if_neg h0, if_pos (by omega : x > 0)]
  have hl := hlt (x - 1)
  have hm := hlt x
  by_cases hlast : x = w - 1
  · rw [if_pos hlast, if_neg (by omega), show w - 2 = x - 1 by omega, ← hlast,
      hnat _ (by omega)]
    dsimp only
    omega
  · have hr := hlt (x + 1)
    rw [if_neg hlast, if_pos (by omega), hnat _ (by omega)]
    dsimp only
    omega

/-- `blur` in `up_usm__combine_row`, at pixel `(x, y)`. -/
def usmBlurAt (plane : ℕ → ℕ → UInt8) (w h y x : ℕ) : ℕ :=
  ((hblurAt (plane (rowAbove y)) w x).toNat + (hblurAt (plane y) w x).toNat <<< 1 +
    (hblurAt (plane (rowBelow h y)) w x).toNat + 2) >>> 2

/-- Both passes are both stages. -/
theorem usmBlurAt_eq (plane : ℕ → ℕ → UInt8) {w x : ℕ} (h y : ℕ) (hx : x < w) :
    (usmBlurAt plane w h y x : ℤ) = smooth (pixelInts plane) h w y x := by
  have hup := hblurAt_eq (plane (rowAbove y)) hx
  have hmid := hblurAt_eq (plane y) hx
  have hdn := hblurAt_eq (plane (rowBelow h y)) hx
  unfold usmBlurAt smooth tap
  show _ = (smoothRow (fun x => ((plane (rowAbove y) x).toNat : ℤ)) w x
    + 2 * smoothRow (fun x => ((plane y x).toNat : ℤ)) w x
    + smoothRow (fun x => ((plane (rowBelow h y) x).toNat : ℤ)) w x + 2) / 4
  rw [← hup, ← hmid, ← hdn]
  omega

/-- `sharpened` in `up_usm__combine_row` before its clamp. -/
def usmSharpenedAt (plane : ℕ → ℕ → UInt8) (w h : ℕ) (amountQ8 : ℤ) (y x : ℕ) : ℤ :=
  pixelInts plane y x + floorDivQ8 (amountQ8 * (pixelInts plane y x - usmBlurAt plane w h y x))

/-- `up_usm__floor_div_q8` rounds down. -/
theorem floorDivQ8_eq (v : ℤ) : floorDivQ8 v = v / 256 := by
  unfold floorDivQ8
  dsimp only
  rw [Int.tdiv_eq_ediv, Int.tmod_eq_emod]
  by_cases hv : 0 ≤ v ∨ (256 : ℤ) ∣ v
  · rw [if_pos hv, if_pos hv, if_neg (by omega)]
    omega
  · rw [if_neg hv, if_neg hv, if_pos (by omega)]
    show v / 256 + 1 - 1 = v / 256
    omega

theorem usmAt_toNat (plane : ℕ → ℕ → UInt8) (w h : ℕ) (amountQ8 : ℤ) (y x : ℕ) :
    ((usmAt plane w h amountQ8 y x).toNat : ℤ) =
      max 0 (min (usmSharpenedAt plane w h amountQ8 y x) 255) := by
  show ((combinePixel amountQ8 (plane y x) (hblurAt (plane (rowAbove y)) w x)
    (hblurAt (plane y) w x) (hblurAt (plane (rowBelow h y)) w x)).toNat : ℤ) = _
  unfold combinePixel
  show (((UInt8.ofNat (if usmSharpenedAt plane w h amountQ8 y x < 0 then 0
    else if usmSharpenedAt plane w h amountQ8 y x > 255 then 255
    else usmSharpenedAt plane w h amountQ8 y x).toNat).toNat : ℕ) : ℤ) = _
  rw [UInt8.toNat_ofNat']
  split_ifs <;> omega

/-! ### The kernels in machine arithmetic -/

/-- `uint8_t` -/
def uint8 : IntType := unsigned 8

/-- `up_usm__hblur_row` at pixel `x`.  The shifts work on non-negative values,
as a product and a quotient; `none` stands for an operation that overflows, or
a cast that changes the value. -/
def hblurAtInt (row : ℕ → UInt8) (w x : ℕ) : Option ℤ :=
  if w = 1 then pure (row 0).toNat
  else if x = 0 then do
    let edge ← int32.mul (row 0).toNat 3
    let sum ← int32.add edge (row 1).toNat
    let sum ← int32.add sum 2
    let quotient ← int32.div sum 4
    uint8.fit quotient
  else if x = w - 1 then do
    let edge ← int32.mul (row (w - 1)).toNat 3
    let sum ← int32.add (row (w - 2)).toNat edge
    let sum ← int32.add sum 2
    let quotient ← int32.div sum 4
    uint8.fit quotient
  else do
    let middle ← int32.mul (row x).toNat 2
    let sum ← int32.add (row (x - 1)).toNat middle
    let sum ← int32.add sum (row (x + 1)).toNat
    let sum ← int32.add sum 2
    let quotient ← int32.div sum 4
    uint8.fit quotient

/-- `up_usm__floor_div_q8` -/
def floorDivQ8Int (value : ℤ) : Option ℤ := do
  let quotient ← int32.div value 256
  if value < 0 ∧ value.tmod 256 ≠ 0 then int32.add quotient (-1) else pure quotient

/-- The body of the loop of `up_usm__combine_row`. -/
def combinePixelInt (amountQ8 : ℤ) (s up mid dn : ℤ) : Option ℤ := do
  let middle ← int32.mul mid 2
  let sum ← int32.add up middle
  let sum ← int32.add sum dn
  let sum ← int32.add sum 2
  let blur ← int32.div sum 4
  let hi ← int32.add s (-blur)
  let product ← int32.mul amountQ8 hi
  let detail ← floorDivQ8Int product
  let sharpened ← int32.add s detail
  uint8.fit (if sharpened < 0 then 0 else if sharpened > 255 then 255 else sharpened)

/-- One pixel of the sharpened plane. -/
def usmAtInt (plane : ℕ → ℕ → UInt8) (w h : ℕ) (amountQ8 : ℤ) (y x : ℕ) : Option ℤ := do
  let up ← hblurAtInt (plane (rowAbove y)) w x
  let mid ← hblurAtInt (plane y) w x
  let dn ← hblurAtInt (plane (rowBelow h y)) w x
  combinePixelInt amountQ8 (plane y x).toNat up mid dn

theorem int32_small {v : ℤ} (hlo : -2000000 ≤ v) (hhi : v ≤ 2000000) : int32.Holds v := by
  rw [int32_holds]
  unfold intMax
  omega

theorem uint8_fit {v : ℤ} (hlo : 0 ≤ v) (hhi : v ≤ 255) : uint8.fit v = some v :=
  fit_eq ⟨hlo, hhi⟩

theorem quarter_eq {v : ℤ} (hlo : 0 ≤ v) (hhi : v ≤ 1022) : int32.div v 4 = some (v / 4) :=
  div_eq hlo (by decide) (int32_small (by omega) (by omega)) (by decide)

theorem hblurAtInt_eq (row : ℕ → UInt8) (w x : ℕ) :
    hblurAtInt row w x = some ((hblurAt row w x).toNat : ℤ) := by
  have hcast : ∀ n : ℕ, n ≤ 255 → ((UInt8.ofNat n).toNat : ℤ) = n := by
    intro n hn
    rw [UInt8.toNat_ofNat']
    omega
  unfold hblurAtInt hblurAt
  by_cases hw : w = 1
  · rw [if_pos hw, if_pos hw]
    rfl
  rw [if_neg hw, if_neg hw]
  by_cases h0 : x = 0
  · have hr0 := pixel_bounds (row 0)
    have hr1 := pixel_bounds (row 1)
    rw [if_pos h0, if_pos h0, hcast _ (by omega),
      bind_of_eq (mul_eq (int32_small (by omega) (by omega))),
      bind_of_eq (add_eq (int32_small (by omega) (by omega))),
      bind_of_eq (add_eq (int32_small (by omega) (by omega))),
      bind_of_eq (quarter_eq (by omega) (by omega)), uint8_fit (by omega) (by omega)]
    congr 1
    omega
  rw [if_neg h0, if_neg h0]
  by_cases hlast : x = w - 1
  · have hr0 := pixel_bounds (row (w - 2))
    have hr1 := pixel_bounds (row (w - 1))
    rw [if_pos hlast, if_pos hlast, hcast _ (by omega),
      bind_of_eq (mul_eq (int32_small (by omega) (by omega))),
      bind_of_eq (add_eq (int32_small (by omega) (by omega))),
      bind_of_eq (add_eq (int32_small (by omega) (by omega))),
      bind_of_eq (quarter_eq (by omega) (by omega)), uint8_fit (by omega) (by omega)]
    congr 1
    omega
  · have hl := pixel_bounds (row (x - 1))
    have hm := pixel_bounds (row x)
    have hr := pixel_bounds (row (x + 1))
    rw [if_neg hlast, if_neg hlast, hcast _ (by omega),
      bind_of_eq (mul_eq (int32_small (by omega) (by omega))),
      bind_of_eq (add_eq (int32_small (by omega) (by omega))),
      bind_of_eq (add_eq (int32_small (by omega) (by omega))),
      bind_of_eq (add_eq (int32_small (by omega) (by omega))),
      bind_of_eq (quarter_eq (by omega) (by omega)), uint8_fit (by omega) (by omega)]
    congr 1
    omega

theorem floorDivQ8Int_eq {v : ℤ} (hlo : -1500000 ≤ v) (hhi : v ≤ 1500000) :
    floorDivQ8Int v = some (floorDivQ8 v) := by
  have hfloor := floorDivQ8_eq v
  unfold floorDivQ8 at hfloor
  dsimp only at hfloor
  -- the truncated quotient is the floor, or one above it
  have hquot : v / 256 ≤ v.tdiv 256 ∧ v.tdiv 256 ≤ v / 256 + 1 := by
    split_ifs at hfloor <;> omega
  have hdiv : int32.div v 256 = some (v.tdiv 256) := by
    unfold IntType.div
    rw [if_neg (by decide)]
    exact fit_eq (int32_small (by omega) (by omega))
  unfold floorDivQ8Int floorDivQ8
  rw [bind_of_eq hdiv]
  dsimp only
  split_ifs
  · exact add_eq (int32_small (by omega) (by omega))
  · rfl

theorem amount_bounds (amountQ8 : ℤ) : 0 ≤ clampAmountQ8 amountQ8 ∧ clampAmountQ8 amountQ8 ≤ 4096 := by
  unfold clampAmountQ8 usmAmountQ8Max
  split_ifs <;> omega

/-- The sharpening product of a clamped amount. -/
theorem product_bounds {a d : ℤ} (ha : 0 ≤ a ∧ a ≤ 4096) (hd : -255 ≤ d ∧ d ≤ 255) :
    -1044480 ≤ a * d ∧ a * d ≤ 1044480 := by
  have hup : a * d ≤ a * 255 := mul_le_mul_of_nonneg_left hd.2 ha.1
  have hlow : a * (-255) ≤ a * d := mul_le_mul_of_nonneg_left hd.1 ha.1
  omega

theorem combinePixelInt_eq {a : ℤ} (ha : 0 ≤ a ∧ a ≤ 4096) (s up mid dn : UInt8) :
    combinePixelInt a s.toNat up.toNat mid.toNat dn.toNat =
      some ((combinePixel a s up mid dn).toNat : ℤ) := by
  have hs := pixel_bounds s
  have hup := pixel_bounds up
  have hmid := pixel_bounds mid
  have hdn := pixel_bounds dn
  have hblur : (((up.toNat + mid.toNat <<< 1 + dn.toNat + 2) >>> 2 : ℕ) : ℤ) =
      ((up.toNat : ℤ) + mid.toNat * 2 + dn.toNat + 2) / 4 := by omega
  unfold combinePixelInt combinePixel
  dsimp only
  rw [hblur, bind_of_eq (mul_eq (int32_small (by omega) (by omega))),
    bind_of_eq (add_eq (int32_small (by omega) (by omega))),
    bind_of_eq (add_eq (int32_small (by omega) (by omega))),
    bind_of_eq (add_eq (int32_small (by omega) (by omega))),
    bind_of_eq (quarter_eq (by omega) (by omega)),
    bind_of_eq (add_eq (int32_small (by omega) (by omega))), ← sub_eq_add_neg]
  have hb : 0 ≤ ((up.toNat : ℤ) + mid.toNat * 2 + dn.toNat + 2) / 4 ∧
      ((up.toNat : ℤ) + mid.toNat * 2 + dn.toNat + 2) / 4 ≤ 255 := by omega
  generalize ((up.toNat : ℤ) + mid.toNat * 2 + dn.toNat + 2) / 4 = blur at *
  have hproduct := product_bounds ha (show -255 ≤ (s.toNat : ℤ) - blur ∧ _ ≤ _ by omega)
  have hdetail := floorDivQ8_eq (a * ((s.toNat : ℤ) - blur))
  rw [bind_of_eq (mul_eq (int32_small (by omega) (by omega))),
    bind_of_eq (floorDivQ8Int_eq (by omega) (by omega)),
    bind_of_eq (add_eq (int32_small (by omega) (by omega)))]
  generalize (s.toNat : ℤ) + floorDivQ8 (a * ((s.toNat : ℤ) - blur)) = v
  rw [uint8_fit (by split_ifs <;> omega) (by split_ifs <;> omega), UInt8.toNat_ofNat']
  congr 1
  split_ifs <;> omega

/-- No operation on a pixel overflows. -/
theorem usmAtInt_eq (plane : ℕ → ℕ → UInt8) (w h : ℕ) (amountQ8 : ℤ) (y x : ℕ) :
    usmAtInt plane w h (clampAmountQ8 amountQ8) y x =
      some ((usmAt plane w h (clampAmountQ8 amountQ8) y x).toNat : ℤ) := by
  unfold usmAtInt usmAt
  rw [bind_of_eq (hblurAtInt_eq _ w x), bind_of_eq (hblurAtInt_eq _ w x),
    bind_of_eq (hblurAtInt_eq _ w x)]
  exact combinePixelInt_eq (amount_bounds amountQ8) _ _ _ _

/-! ### The error -/

/-- Saturation to 8 bits. -/
def saturate (v : ℚ) : ℚ := max 0 (min v 255)

theorem saturate_mono {u v : ℚ} (h : u ≤ v) : saturate u ≤ saturate v :=
  max_le_max le_rfl (min_le_min h le_rfl)

/-- Saturating brings two values no further apart. -/
theorem saturate_sub_le {u v : ℚ} (h : u ≤ v) : saturate v - saturate u ≤ v - u := by
  have hmin : min v 255 ≤ min u 255 + (v - u) := by
    rw [← min_add_add_right]
    exact min_le_min (by linarith) (by linarith)
  have hmax : saturate v ≤ saturate u + (v - u) := by
    refine max_le (add_nonneg (le_max_left _ _) (sub_nonneg.mpr h)) (hmin.trans ?_)
    unfold saturate
    linarith [le_max_right 0 (min u 255)]
  linarith

/-- Saturating keeps a difference within bounds around 0. -/
theorem saturate_sub_bounds {u v lo hi : ℚ} (hlo : lo < 0) (hhi : 0 ≤ hi)
    (h : lo < v - u ∧ v - u ≤ hi) :
    lo < saturate v - saturate u ∧ saturate v - saturate u ≤ hi := by
  rcases le_total u v with huv | hvu
  · have hmono := saturate_mono huv
    have hlip := saturate_sub_le huv
    constructor <;> linarith
  · have hmono := saturate_mono hvu
    have hlip := saturate_sub_le hvu
    constructor <;> linarith

/-- The exact unsharp mask of a pixel, before saturation. -/
def exactUsm (plane : ℕ → ℕ → UInt8) (w h : ℕ) (a : ℤ) (y x : ℕ) : ℚ :=
  pixelInts plane y x + a * (pixelInts plane y x - exactSmooth (pixelInts plane) h w y x) / 256

/-- The sharpened value before saturation, against the exact one. -/
theorem usmSharpenedAt_error (plane : ℕ → ℕ → UInt8) {w h y x : ℕ} {a : ℤ} (ha : 0 ≤ a)
    (hy : y < h) (hx : x < w) :
    -(a : ℚ) / 256 - 1 < (usmSharpenedAt plane w h a y x : ℚ) - exactUsm plane w h a y x ∧
      (usmSharpenedAt plane w h a y x : ℚ) - exactUsm plane w h a y x ≤ a / 512 := by
  obtain ⟨hblurLo, hblurHi⟩ := smooth_error_rat (f := pixelInts plane) hy hx
  rw [← usmBlurAt_eq plane h y hx] at hblurLo hblurHi
  have haQ : (0 : ℚ) ≤ a := by exact_mod_cast ha
  unfold usmSharpenedAt exactUsm
  rw [floorDivQ8_eq]
  generalize exactSmooth (pixelInts plane) h w y x = e at *
  generalize hb : (usmBlurAt plane w h y x : ℤ) = b
  have hbq : ((usmBlurAt plane w h y x : ℤ) : ℚ) = b := by rw [hb]
  rw [hbq] at hblurLo hblurHi
  generalize pixelInts plane y x = s
  -- the floor of the product loses less than one
  have hfloorLe : ((a * (s - b) / 256 : ℤ) : ℚ) * 256 ≤ a * (s - b) := by
    exact_mod_cast Int.ediv_mul_le (a * (s - b)) (by decide : (256 : ℤ) ≠ 0)
  have hfloorLt : (a : ℚ) * (s - b) < (((a * (s - b) / 256 : ℤ) : ℚ) + 1) * 256 := by
    exact_mod_cast Int.lt_ediv_add_one_mul_self (a * (s - b)) (by decide : (0 : ℤ) < 256)
  -- and the blur's bias is scaled by the amount
  have hbiasHi : (a : ℚ) * (e - b) ≤ a * (1 / 2) := mul_le_mul_of_nonneg_left (by linarith) haQ
  have hbiasLo : (a : ℚ) * (-1) ≤ a * (e - b) := mul_le_mul_of_nonneg_left (by linarith) haQ
  push_cast
  constructor <;> linarith

/-- The sharpened pixel against the exact one, both saturated. -/
theorem usmAt_error (plane : ℕ → ℕ → UInt8) {w h y x : ℕ} {a : ℤ} (ha : 0 ≤ a)
    (hy : y < h) (hx : x < w) :
    -(a : ℚ) / 256 - 1 < ((usmAt plane w h a y x).toNat : ℚ) - saturate (exactUsm plane w h a y x) ∧
      ((usmAt plane w h a y x).toNat : ℚ) - saturate (exactUsm plane w h a y x) ≤ a / 512 := by
  have haQ : (0 : ℚ) ≤ a := by exact_mod_cast ha
  have hsat : ((usmAt plane w h a y x).toNat : ℚ) = saturate (usmSharpenedAt plane w h a y x) := by
    have hint := usmAt_toNat plane w h a y x
    unfold saturate
    exact_mod_cast hint
  rw [hsat]
  refine saturate_sub_bounds ?_ (by positivity) (usmSharpenedAt_error plane ha hy hx)
  linarith [div_nonneg haQ (by norm_num : (0 : ℚ) ≤ 256), neg_div (256 : ℚ) (a : ℚ)]

/-- **The fixed-point unsharp mask stays within a proven error of the exact
one**, at every pixel of every plane and for every amount, in place or not, and
no operation on the way overflows. -/
theorem usm_error_bounded (m : Memory) {dst ds src ss w h workspace : ℕ} (amountQ8 : ℤ)
    (hw : 0 < w) (hh : 0 < h) (hd : w ≤ ds) (hs : w ≤ ss)
    (hsrc : (dst = src ∧ ds = ss) ∨ Disjoint (rect dst ds w h) (rect src ss w h))
    (hwork : Disjoint (rect dst ds w h) (rect workspace w w h))
    (hblur : Disjoint (rect workspace w w h) (rect src ss w h)) :
    let plane := planeAt m src ss
    let a := clampAmountQ8 amountQ8
    let out := (applyPlane m (some ⟨some dst, ds, some src, ss, w, h⟩) amountQ8 (some workspace)).2
    ∀ y < h, ∀ x < w,
      (-(1 / 2) ≤ (usmBlurAt plane w h y x : ℚ) - exactSmooth (pixelInts plane) h w y x ∧
        (usmBlurAt plane w h y x : ℚ) - exactSmooth (pixelInts plane) h w y x ≤ 1) ∧
      (-(a : ℚ) / 256 - 1 < ((out (addr dst ds y x)).toNat : ℚ) - saturate (exactUsm plane w h a y x) ∧
        ((out (addr dst ds y x)).toNat : ℚ) - saturate (exactUsm plane w h a y x) ≤ a / 512) ∧
      usmAtInt plane w h a y x = some ((out (addr dst ds y x)).toNat : ℤ) := by
  intro plane a out y hy x hx
  have hout : out (addr dst ds y x) = usmAt plane w h a y x :=
    (applyPlane_eq m amountQ8 hw hh hd hs hsrc hwork hblur).2 y hy x hx
  rw [hout]
  refine ⟨?_, usmAt_error plane (amount_bounds amountQ8).1 hy hx, usmAtInt_eq plane w h amountQ8 y x⟩
  have herror := smooth_error_rat (f := pixelInts plane) hy hx
  rwa [← usmBlurAt_eq plane h y hx] at herror

/-- A 3×2 plane at a strong amount. -/
theorem usm_error_bounded_three_by_two :
    usmAtInt (planeAt UInt8.ofNat 100 4) 3 2 (clampAmountQ8 9999) 1 2 =
      some (((applyPlane UInt8.ofNat (some ⟨some 0, 3, some 100, 4, 3, 2⟩) 9999 (some 200)).2
        (addr 0 3 1 2)).toNat : ℤ) :=
  (usm_error_bounded UInt8.ofNat (w := 3) (h := 2) 9999 (by decide) (by decide)
    (by decide : 3 ≤ 3) (by decide : 3 ≤ 4) (.inr (rect_disjoint_of_le (by decide) (by decide)))
    (rect_disjoint_of_le (by decide) (by decide))
    (rect_disjoint_of_le (by decide) (by decide)).symm 1 (by decide) 2 (by decide)).2.2

end AutoUpscale
