/-
The stripe bounds are an exact ordered partition with bounded drift.

`computeStripeBoundsInt` is `up_compute_stripe_bounds` with every operation in
the type C computes it in.

* **`stripe_partition`** — for every count and all 32-bit extents no operation
  overflows, consecutive stripes share their boundaries on both axes, the
  boundaries ascend from 0 to the extents, and each source boundary lies less
  than two rows below the exact image of its destination boundary.

The count may exceed the extents: the collapsed stripes are part of the
partition, only empty.
-/
import AutoUpscale.NestedFloor
import AutoUpscale.UpscaleContract
import AutoUpscale.PlaneUtils

namespace AutoUpscale

open MachineInt MachineInt.IntType NestedFloor

/-! ### The cuts as nested roundings -/

theorem alignDown2_superadditive : Superadditive alignDown2 := by
  intro x y
  unfold alignDown2
  omega

theorem lt_alignDown2_add_two (x : ℤ) : x ≤ alignDown2 x + 1 := by
  unfold alignDown2
  omega

/-- An internal boundary: the exact multiple, rounded down and aligned. -/
def alignedCut (p q k : ℤ) : ℤ := alignDown2 (scaled p q k)

theorem dstCut_eq_alignedCut {n dst k : ℤ} (h : k ≠ n) :
    dstCut n dst k = alignedCut dst n k := dstCut_of_ne h

/-- The source boundary is the image of the destination one. -/
theorem srcCut_eq_alignedCut {n src dst k : ℤ} (h : k ≠ n) :
    srcCut n src dst k = alignedCut src dst (dstCut n dst k) := by
  rw [srcCut_of_ne h, mul_comm]
  rfl

/-- How far the source boundary `S` lies below the image of the destination
boundary `D`, in parts of `dst`. -/
def cutDrift (src dst S D : ℤ) : ℤ := src * D - dst * S

/-- A boundary drifts by less than two source rows. -/
theorem cutDrift_bounds {dst : ℤ} (n src : ℤ) (hdst : 0 < dst) (k : ℤ) :
    0 ≤ cutDrift src dst (srcCut n src dst k) (dstCut n dst k) ∧
      cutDrift src dst (srcCut n src dst k) (dstCut n dst k) < 2 * dst := by
  unfold cutDrift
  rcases eq_or_ne k n with rfl | hk
  · -- the two ends are exact
    rw [dstCut_last, srcCut_last, mul_comm dst src, sub_self]
    omega
  · rw [srcCut_eq_alignedCut hk]
    generalize dstCut n dst k = D
    have hle : alignedCut src dst D * dst ≤ D * src := by
      calc alignedCut src dst D * dst ≤ scaled src dst D * dst :=
            mul_le_mul_of_nonneg_right (alignDown2_le _) hdst.le
        _ ≤ D * src := scaled_mul_le hdst
    have hlt : D * src < (alignedCut src dst D + 2) * dst :=
      lt_scaled_add_two hdst (lt_alignDown2_add_two _)
    constructor
    · linarith
    · linarith

/-! ### The bounds in machine arithmetic -/

/-- `UP_ALIGN_DOWN_2((int)((int64_t)k * p / q))` -/
def alignedCutInt (p q k : ℤ) : Option ℤ := do
  let product ← int64.mul k p
  let quotient ← int64.div product q
  let narrowed ← int32.fit quotient
  pure (alignDown2 narrowed)

/-- `up_compute_stripe_bounds`; `none` stands for an operation that overflows. -/
def computeStripeBoundsInt (i n srcH dstH : ℤ) (out : StripeBounds) :
    Option (Bool × StripeBounds) :=
  if ¬ stripeArgsValid i n srcH dstH then pure (false, out)
  else do
    let last ← int32.add n (-1)
    let dstStart ← (if i = 0 then pure 0 else alignedCutInt dstH n i)
    let dstEnd ← (if i = last then pure dstH else do
      let next ← int32.add i 1
      alignedCutInt dstH n next)
    let srcStart ← (if i = 0 then pure 0 else alignedCutInt dstStart dstH srcH)
    let srcEnd ← (if i = last then pure srcH else alignedCutInt dstEnd dstH srcH)
    pure (decide (dstEnd > dstStart) && decide (srcEnd > srcStart),
      ⟨srcStart, srcEnd, dstStart, dstEnd⟩)

/-- A product of two `int` values fits `int64_t`, and a quotient that fits
`int` is kept by the cast. -/
theorem alignedCutInt_eq {p q k : ℤ} (hk : 0 ≤ k) (hkm : k ≤ intMax) (hp : 0 ≤ p)
    (hpm : p ≤ intMax) (hq : 0 < q) (hfit : k * p / q ≤ intMax) :
    alignedCutInt p q k = some (alignDown2 (k * p / q)) := by
  have hpos : 0 ≤ k * p := mul_nonneg hk hp
  have hprod : k * p ≤ intMax * intMax := mul_le_mul hkm hpm hp (by decide)
  have hholds : int64.Holds (k * p) := by
    rw [int64_holds]
    unfold intMax at hprod
    omega
  have hquot : 0 ≤ k * p / q := Int.ediv_nonneg hpos hq.le
  have hnarrow : int32.Holds (k * p / q) := by
    rw [int32_holds]
    omega
  unfold alignedCutInt
  rw [bind_of_eq (mul_eq hholds), bind_of_eq (div_eq hpos hq hholds (by decide)),
    bind_of_eq (fit_eq hnarrow)]
  rfl

/-- A share of an extent: at most all of it. -/
theorem share_le {x p q : ℤ} (hp : 0 ≤ p) (hq : 0 < q) (hx : x ≤ q) : x * p / q ≤ p := by
  calc x * p / q ≤ q * p / q := Int.ediv_le_ediv hq (mul_le_mul_of_nonneg_right hx hp)
    _ = p := Int.mul_ediv_cancel_left _ hq.ne'

/-- No operation of `up_compute_stripe_bounds` overflows, whatever the `int`
arguments. -/
theorem computeStripeBoundsInt_eq {i n src dst : ℤ} (hn : int32.Holds n)
    (hsrc : int32.Holds src) (hdst : int32.Holds dst) (out : StripeBounds) :
    computeStripeBoundsInt i n src dst out = some (computeStripeBounds i n src dst out) := by
  rw [int32_holds] at hn hsrc hdst
  unfold computeStripeBoundsInt computeStripeBounds
  by_cases hvalid : stripeArgsValid i n src dst = true
  · obtain ⟨hs, hd, hi, hin⟩ := stripeArgsValid_iff.mp hvalid
    have hn0 : 0 < n := by omega
    have hguard : ¬¬ stripeArgsValid i n src dst = true := not_not.mpr hvalid
    rw [if_neg hguard, if_neg hguard]
    have hlast : int32.add n (-1) = some (n - 1) := add_eq (int32_holds.mpr (by omega))
    -- the destination boundaries are shares of `dst`
    have hstart : 0 ≤ i * dst / n ∧ i * dst / n ≤ dst :=
      ⟨Int.ediv_nonneg (mul_nonneg hi hd.le) hn0.le, share_le hd.le hn0 hin.le⟩
    have hend : 0 ≤ (i + 1) * dst / n ∧ (i + 1) * dst / n ≤ dst :=
      ⟨Int.ediv_nonneg (mul_nonneg (by omega) hd.le) hn0.le, share_le hd.le hn0 (by omega)⟩
    have hds : (if i = 0 then pure 0 else alignedCutInt dst n i)
        = some (if i = 0 then 0 else alignDown2 (i * dst / n)) := by
      split_ifs with h0
      · rfl
      · exact alignedCutInt_eq hi (by omega) hd.le hdst.2 hn0 (by omega)
    have hde : (if i = n - 1 then pure dst else do
          let next ← int32.add i 1
          alignedCutInt dst n next)
        = some (if i = n - 1 then dst else alignDown2 ((i + 1) * dst / n)) := by
      split_ifs with h1
      · rfl
      · rw [bind_of_eq (add_eq (int32_holds.mpr (by omega)))]
        exact alignedCutInt_eq (by omega) (by omega) hd.le hdst.2 hn0 (by omega)
    rw [bind_of_eq hlast, bind_of_eq hds, bind_of_eq hde]
    -- the source boundaries are shares of `src`, in the ratio `D / dst`
    have hsource : ∀ D, 0 ≤ D → D ≤ dst →
        alignedCutInt D dst src = some (alignDown2 (src * D / dst)) := by
      intro D hD hDd
      have hle : src * D / dst ≤ src := by
        rw [mul_comm]
        exact share_le hs.le hd hDd
      exact alignedCutInt_eq hs.le hsrc.2 hD (hDd.trans hdst.2) hd (hle.trans hsrc.2)
    have hbelow : ∀ x, 0 ≤ x → x ≤ dst → 0 ≤ alignDown2 x ∧ alignDown2 x ≤ dst := by
      intro x hx hxd
      exact ⟨alignDown2_nonneg hx, (alignDown2_le x).trans hxd⟩
    have hss : (if i = 0 then pure 0 else
          alignedCutInt (if i = 0 then 0 else alignDown2 (i * dst / n)) dst src)
        = some (if i = 0 then 0 else
          alignDown2 (src * (if i = 0 then 0 else alignDown2 (i * dst / n)) / dst)) := by
      split_ifs with h0
      · rfl
      · obtain ⟨hlo, hhi⟩ := hbelow _ hstart.1 hstart.2
        exact hsource _ hlo hhi
    have hse : (if i = n - 1 then pure src else
          alignedCutInt (if i = n - 1 then dst else alignDown2 ((i + 1) * dst / n)) dst src)
        = some (if i = n - 1 then src else
          alignDown2 (src * (if i = n - 1 then dst else alignDown2 ((i + 1) * dst / n)) / dst)) := by
      split_ifs with h1
      · rfl
      · obtain ⟨hlo, hhi⟩ := hbelow _ hend.1 hend.2
        exact hsource _ hlo hhi
    rw [bind_of_eq hss, bind_of_eq hse]
    rfl
  · rw [if_pos hvalid, if_pos hvalid]
    rfl

/-! ### The partition -/

/-- `S` and `D` bound a stripe on the two axes: the source boundary lies at
most two rows below the exact image of the destination one. -/
def BoundedDrift (src dst S D : ℤ) : Prop :=
  0 ≤ (src : ℚ) * D / dst - S ∧ (src : ℚ) * D / dst - S < 2

theorem boundedDrift_of_cutDrift {src dst S D : ℤ} (hdst : 0 < dst)
    (h : 0 ≤ cutDrift src dst S D ∧ cutDrift src dst S D < 2 * dst) :
    BoundedDrift src dst S D := by
  have hq : (0 : ℚ) < dst := by exact_mod_cast hdst
  have hlo : (0 : ℚ) ≤ src * D - dst * S := by exact_mod_cast h.1
  have hhi : (src : ℚ) * D - dst * S < 2 * dst := by exact_mod_cast h.2
  have heq : (src : ℚ) * D / dst - S = (src * D - dst * S) / dst := by
    rw [sub_div, mul_div_cancel_left₀ _ hq.ne']
  unfold BoundedDrift
  rw [heq]
  exact ⟨div_nonneg hlo hq.le, (div_lt_iff₀ hq).mpr hhi⟩

/-- `n` stripes that cut both axes exactly, in order and in proportion. -/
structure ExactPartition (n src dst : ℤ) (stripe : ℤ → StripeBounds) : Prop where
  shared : ∀ i, 0 ≤ i → i + 1 < n →
    (stripe i).srcEnd = (stripe (i + 1)).srcStart ∧
      (stripe i).dstEnd = (stripe (i + 1)).dstStart
  ordered : ∀ i, 0 ≤ i → i < n →
    (stripe i).srcStart ≤ (stripe i).srcEnd ∧ (stripe i).dstStart ≤ (stripe i).dstEnd
  first : (stripe 0).srcStart = 0 ∧ (stripe 0).dstStart = 0
  last : (stripe (n - 1)).srcEnd = src ∧ (stripe (n - 1)).dstEnd = dst
  even : ∀ i, 0 ≤ i → i + 1 < n →
    (stripe i).srcEnd % 2 = 0 ∧ (stripe i).dstEnd % 2 = 0
  drift : ∀ i, 0 ≤ i → i < n →
    BoundedDrift src dst (stripe i).srcStart (stripe i).dstStart ∧
      BoundedDrift src dst (stripe i).srcEnd (stripe i).dstEnd
  scale : ∀ i, 0 ≤ i → i < n →
    |((stripe i).srcEnd - (stripe i).srcStart) * dst
      - ((stripe i).dstEnd - (stripe i).dstStart) * src| < 2 * dst

/-- The cuts make an exact partition. -/
theorem exactPartition_of_cuts {n src dst : ℤ} (hn : 0 < n) (hsrc : 0 < src) (hdst : 0 < dst)
    {stripe : ℤ → StripeBounds}
    (h : ∀ i, 0 ≤ i → i < n → stripe i = ⟨srcCut n src dst i, srcCut n src dst (i + 1),
      dstCut n dst i, dstCut n dst (i + 1)⟩) :
    ExactPartition n src dst stripe := by
  constructor
  case shared =>
    intro i hi hin
    rw [h i hi (by omega), h (i + 1) (by omega) hin]
    exact ⟨rfl, rfl⟩
  case ordered =>
    intro i hi hin
    rw [h i hi hin]
    exact ⟨srcCut_mono hn hsrc hdst (by omega) hin, dstCut_mono hn hdst (by omega) hin⟩
  case first =>
    rw [h 0 le_rfl hn]
    exact ⟨srcCut_zero hn, dstCut_zero hn⟩
  case last =>
    rw [h (n - 1) (by omega) (by omega)]
    show srcCut n src dst (n - 1 + 1) = src ∧ dstCut n dst (n - 1 + 1) = dst
    rw [sub_add_cancel]
    exact ⟨srcCut_last n src dst, dstCut_last n dst⟩
  case even =>
    intro i hi hin
    rw [h i hi (by omega)]
    exact ⟨srcCut_even (by omega), dstCut_even (by omega)⟩
  case drift =>
    intro i hi hin
    rw [h i hi hin]
    exact ⟨boundedDrift_of_cutDrift hdst (cutDrift_bounds n src hdst i),
      boundedDrift_of_cutDrift hdst (cutDrift_bounds n src hdst (i + 1))⟩
  case scale =>
    intro i hi hin
    rw [h i hi hin]
    obtain ⟨hlo, hhi⟩ := cutDrift_bounds n src hdst i
    obtain ⟨hlo', hhi'⟩ := cutDrift_bounds n src hdst (i + 1)
    -- the deviation is the difference of the drifts at the two ends
    have hdiff : (srcCut n src dst (i + 1) - srcCut n src dst i) * dst
          - (dstCut n dst (i + 1) - dstCut n dst i) * src
        = cutDrift src dst (srcCut n src dst i) (dstCut n dst i)
          - cutDrift src dst (srcCut n src dst (i + 1)) (dstCut n dst (i + 1)) := by
      unfold cutDrift
      ring
    show |(srcCut n src dst (i + 1) - srcCut n src dst i) * dst
      - (dstCut n dst (i + 1) - dstCut n dst i) * src| < 2 * dst
    rw [hdiff, abs_lt]
    omega

/-- **The stripe bounds are an exact ordered partition with bounded drift**, for
every stripe count and all extents an `int` holds, and no operation on the way
overflows. -/
theorem stripe_partition {n src dst : ℤ} (hn : 1 ≤ n) (hsrc : 0 < src) (hdst : 0 < dst)
    (hnInt : int32.Holds n) (hsrcInt : int32.Holds src) (hdstInt : int32.Holds dst)
    (out : StripeBounds) :
    (∀ i, computeStripeBoundsInt i n src dst out = some (computeStripeBounds i n src dst out)) ∧
      ExactPartition n src dst fun i => (computeStripeBounds i n src dst out).2 := by
  constructor
  · intro i
    exact computeStripeBoundsInt_eq hnInt hsrcInt hdstInt out
  · refine exactPartition_of_cuts (by omega) hsrc hdst ?_
    intro i hi hin
    rw [computeStripeBounds_of_valid hsrc hdst hi hin]

/-- Seven stripes of a three-row axis, most of them empty. -/
theorem stripe_partition_collapsed :
    (∀ i, computeStripeBoundsInt i 7 2 3 default = some (computeStripeBounds i 7 2 3 default)) ∧
      ExactPartition 7 2 3 fun i => (computeStripeBounds i 7 2 3 default).2 :=
  stripe_partition (by decide) (by decide) (by decide) (by decide) (by decide) (by decide) default

end AutoUpscale
