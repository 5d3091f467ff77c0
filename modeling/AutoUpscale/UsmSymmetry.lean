/-
Sharpening respects the symmetries of the picture.

A call of the pool that succeeds writes `usmAt`, whatever its workers and
stripes are, and that is a saturated `sharpen`.  So the laws of the stencil hold
of two calls on two pools:

* **`usm_symmetries`** — a mirrored plane sharpens to the mirrored output, a
  constant plane to itself, and a brighter plane to the output brightened as
  much, where nothing saturates.
-/
import AutoUpscale.UsmFidelity
import AutoUpscale.UsmInPlace

namespace AutoUpscale

open RoundedStencil PlaneMemory DisjointParallel

/-- Some call of `up_usm_pool_apply` that succeeded, in place or not, on a pool
of `nThreads` requested workers, has turned the plane `input` into `output`. -/
def PoolSharpens (nThreads width height stripeMinRows amountQ8 : ℤ)
    (input output : ℕ → ℕ → UInt8) : Prop :=
  ∃ (p : UsmPool) (c : UsmCall) (o : UsmOutcome) (m m' : Memory) (dst src : ℕ),
    UsmReachable nThreads width height stripeMinRows p ∧
    c.dst = some dst ∧ c.src = some src ∧ c.amountQ8 = amountQ8 ∧
    (dst = src ∨ Disjoint (rect dst c.dstStride.toNat width.toNat height.toNat)
      (rect src c.srcStride.toNat width.toNat height.toNat)) ∧
    Disjoint p.scratchRect (rect dst c.dstStride.toNat width.toNat height.toNat) ∧
    Disjoint p.scratchRect (rect src c.srcStride.toNat width.toNat height.toNat) ∧
    (usmPoolApply p c o m).status = .ok ∧ (usmPoolApply p c o m).Ends m' ∧
    (∀ y < height.toNat, ∀ x < width.toNat, planeAt m src c.srcStride.toNat y x = input y x) ∧
    ∀ y < height.toNat, ∀ x < width.toNat, planeAt m' dst c.dstStride.toNat y x = output y x

/-- The sharpened value of a pixel is the one of the stencil. -/
theorem usmSharpenedAt_eq (plane : ℕ → ℕ → UInt8) {w x : ℕ} (h : ℕ) (a : ℤ) (y : ℕ) (hx : x < w) :
    usmSharpenedAt plane w h a y x = sharpen (pixelInts plane) a h w y x := by
  unfold usmSharpenedAt sharpen
  rw [usmBlurAt_eq plane h y hx, floorDivQ8_eq]

section Run

variable {nThreads width height stripeMinRows amountQ8 : ℤ} {input output : ℕ → ℕ → UInt8}

/-- **What the pool writes**, whatever its worker count and schedule. -/
theorem PoolSharpens.output_eq
    (h : PoolSharpens nThreads width height stripeMinRows amountQ8 input output) {y x : ℕ}
    (hy : y < height.toNat) (hx : x < width.toNat) :
    pixelInts output y x = max 0 (min
      (sharpen (pixelInts input) (clampAmountQ8 amountQ8) height.toNat width.toNat y x) 255) := by
  obtain ⟨p, c, o, m, m', dst, src, hp, hdst, hsrc, rfl, hover, hsd, hss, hok, hends, hin, hout⟩ := h
  obtain ⟨hinv, hw, hh⟩ := usmReachable_inv hp
  obtain ⟨hvalid, -⟩ := usmPoolApply_ok hdst hsrc hok
  obtain ⟨hd, hs, hstride⟩ := usmPoolValidateArgs_spec hdst hsrc hvalid
  subst hw hh
  simp only [Int.toNat_natCast] at *
  have hplanes : FramePlanes p dst c.dstStride.toNat src c.srcStride.toNat :=
    ⟨by omega, by omega, hover.imp_left fun heq => ⟨heq, by rw [hstride heq]⟩, hsd, hss⟩
  obtain ⟨hval, -⟩ := usmPoolApply_eq hinv hdst hsrc hplanes hok hends
  have hpixel : output y x = usmAt (planeAt m src c.srcStride.toNat) p.width p.height
      (clampAmountQ8 c.amountQ8) y x := by
    rw [← hout y hy x hx]
    exact hval y hy x hx
  show ((output y x).toNat : ℤ) = _
  rw [hpixel, usmAt_toNat, usmSharpenedAt_eq _ _ _ _ hx]
  have hsame : ∀ y < p.height, ∀ x < p.width,
      pixelInts (planeAt m src c.srcStride.toNat) y x = pixelInts input y x := by
    intro y hy x hx
    unfold pixelInts
    rw [hin y hy x hx]
  rw [sharpen_congr hsame _ hy hx]

end Run

/-- No pixel of the sharpened plane saturates. -/
def NoClamping (plane : ℕ → ℕ → UInt8) (w h : ℕ) (amountQ8 : ℤ) : Prop :=
  ∀ y < h, ∀ x < w, 0 ≤ usmSharpenedAt plane w h amountQ8 y x ∧
    usmSharpenedAt plane w h amountQ8 y x ≤ 255

section Symmetries

variable {n₁ n₂ s₁ s₂ width height amountQ8 : ℤ} {P₁ O₁ P₂ O₂ : ℕ → ℕ → UInt8}

/-- A pixel is its integer value. -/
theorem pixel_ext {u v : UInt8} (h : (u.toNat : ℤ) = v.toNat) : u = v :=
  UInt8.toNat_inj.mp (by exact_mod_cast h)

/-- Two calls whose planes are one another's mirror images, column by column. -/
theorem sharpens_mirror_cols (h₁ : PoolSharpens n₁ width height s₁ amountQ8 P₁ O₁)
    (h₂ : PoolSharpens n₂ width height s₂ amountQ8 P₂ O₂)
    (hmirror : ∀ y < height.toNat, ∀ x < width.toNat, P₂ y x = P₁ y (mirror width.toNat x))
    {y x : ℕ} (hy : y < height.toNat) (hx : x < width.toNat) :
    O₂ y x = O₁ y (mirror width.toNat x) := by
  have hpixels : ∀ y < height.toNat, ∀ x < width.toNat,
      pixelInts P₂ y x = (fun y x => pixelInts P₁ y (mirror width.toNat x)) y x := by
    intro y hy x hx
    show ((P₂ y x).toNat : ℤ) = _
    rw [hmirror y hy x hx]
    rfl
  refine pixel_ext ?_
  show pixelInts O₂ y x = pixelInts O₁ y (mirror width.toNat x)
  rw [h₂.output_eq hy hx, h₁.output_eq hy (mirror_lt hx), sharpen_congr hpixels _ hy hx,
    sharpen_mirror_cols (pixelInts P₁) _ _ _ hx]

/-- Two calls whose planes are one another's mirror images, row by row. -/
theorem sharpens_mirror_rows (h₁ : PoolSharpens n₁ width height s₁ amountQ8 P₁ O₁)
    (h₂ : PoolSharpens n₂ width height s₂ amountQ8 P₂ O₂)
    (hmirror : ∀ y < height.toNat, ∀ x < width.toNat, P₂ y x = P₁ (mirror height.toNat y) x)
    {y x : ℕ} (hy : y < height.toNat) (hx : x < width.toNat) :
    O₂ y x = O₁ (mirror height.toNat y) x := by
  have hpixels : ∀ y < height.toNat, ∀ x < width.toNat,
      pixelInts P₂ y x = (fun y x => pixelInts P₁ (mirror height.toNat y) x) y x := by
    intro y hy x hx
    show ((P₂ y x).toNat : ℤ) = _
    rw [hmirror y hy x hx]
    rfl
  refine pixel_ext ?_
  show pixelInts O₂ y x = pixelInts O₁ (mirror height.toNat y) x
  rw [h₂.output_eq hy hx, h₁.output_eq (mirror_lt hy) hx, sharpen_congr hpixels _ hy hx,
    sharpen_mirror_rows (pixelInts P₁) _ _ _ hy]

/-- A constant plane is a fixed point. -/
theorem sharpens_const (h₁ : PoolSharpens n₁ width height s₁ amountQ8 P₁ O₁) {v : UInt8}
    (hconst : ∀ y < height.toNat, ∀ x < width.toNat, P₁ y x = v) {y x : ℕ}
    (hy : y < height.toNat) (hx : x < width.toNat) : O₁ y x = v := by
  have hpixels : ∀ y < height.toNat, ∀ x < width.toNat,
      pixelInts P₁ y x = (fun _ _ => (v.toNat : ℤ)) y x := by
    intro y hy x hx
    show ((P₁ y x).toNat : ℤ) = v.toNat
    rw [hconst y hy x hx]
  refine pixel_ext ?_
  show pixelInts O₁ y x = v.toNat
  have hv := pixel_bounds v
  rw [h₁.output_eq hy hx, sharpen_congr hpixels _ hy hx, sharpen_const]
  omega

/-- A plane brightened by `k` sharpens to the output brightened by `k`. -/
theorem sharpens_add (h₁ : PoolSharpens n₁ width height s₁ amountQ8 P₁ O₁)
    (h₂ : PoolSharpens n₂ width height s₂ amountQ8 P₂ O₂) {k : ℤ}
    (hadd : ∀ y < height.toNat, ∀ x < width.toNat, pixelInts P₂ y x = pixelInts P₁ y x + k)
    (hclamp₁ : NoClamping P₁ width.toNat height.toNat (clampAmountQ8 amountQ8))
    (hclamp₂ : NoClamping P₂ width.toNat height.toNat (clampAmountQ8 amountQ8)) {y x : ℕ}
    (hy : y < height.toNat) (hx : x < width.toNat) : pixelInts O₂ y x = pixelInts O₁ y x + k := by
  have hshift : sharpen (pixelInts P₂) (clampAmountQ8 amountQ8) height.toNat width.toNat y x =
      sharpen (pixelInts P₁) (clampAmountQ8 amountQ8) height.toNat width.toNat y x + k := by
    rw [sharpen_congr (g := fun y x => pixelInts P₁ y x + k) hadd _ hy hx, sharpen_add]
  have hin₁ := hclamp₁ y hy x hx
  have hin₂ := hclamp₂ y hy x hx
  rw [usmSharpenedAt_eq _ _ _ _ hx] at hin₁ hin₂
  rw [h₁.output_eq hy hx, h₂.output_eq hy hx]
  omega

/-- **Sharpening respects the symmetries of the picture**, for every plane and
amount and for any worker counts of the two calls. -/
theorem usm_symmetries (h₁ : PoolSharpens n₁ width height s₁ amountQ8 P₁ O₁)
    (h₂ : PoolSharpens n₂ width height s₂ amountQ8 P₂ O₂) :
    let w := width.toNat
    let h := height.toNat
    ((∀ y < h, ∀ x < w, P₂ y x = P₁ y (mirror w x)) →
      ∀ y < h, ∀ x < w, O₂ y x = O₁ y (mirror w x)) ∧
    ((∀ y < h, ∀ x < w, P₂ y x = P₁ (mirror h y) x) →
      ∀ y < h, ∀ x < w, O₂ y x = O₁ (mirror h y) x) ∧
    (∀ v, (∀ y < h, ∀ x < w, P₁ y x = v) → ∀ y < h, ∀ x < w, O₁ y x = v) ∧
    ∀ k : ℤ, (∀ y < h, ∀ x < w, pixelInts P₂ y x = pixelInts P₁ y x + k) →
      NoClamping P₁ w h (clampAmountQ8 amountQ8) → NoClamping P₂ w h (clampAmountQ8 amountQ8) →
      ∀ y < h, ∀ x < w, pixelInts O₂ y x = pixelInts O₁ y x + k := by
  refine ⟨?_, ?_, ?_, ?_⟩
  · intro hmirror y hy x hx
    exact sharpens_mirror_cols h₁ h₂ hmirror hy hx
  · intro hmirror y hy x hx
    exact sharpens_mirror_rows h₁ h₂ hmirror hy hx
  · intro v hconst y hy x hx
    exact sharpens_const h₁ hconst hy hx
  · intro k hadd hclamp₁ hclamp₂ y hy x hx
    exact sharpens_add h₁ h₂ hadd hclamp₁ hclamp₂ hy hx

end Symmetries

/-- A pool of two workers sharpens a 2×2 plane in place, whatever is in memory. -/
theorem poolSharpens_two (m : Memory) :
    ∃ output, PoolSharpens 2 2 2 1 128 (planeAt m 0 3) output := by
  set p : UsmPool :=
    { nThreads := 2, nThreadsPref := 2, width := 2, height := 2, scratch := 100
      workers := fun _ => default, pool := workerPoolConfig 2 false } with hp
  have hreach : UsmReachable 2 2 2 1 p :=
    .create (show usmPoolCreate 2 2 2 1 true 100 = some p from rfl)
  set r := usmPoolApply p ⟨some 0, 3, some 0, 3, 128⟩
    ⟨⟨true, true, true, true, fun _ => true, fun _ => true, ⟨true, fun _ => true⟩⟩, true,
      ⟨true, fun _ => true⟩⟩ m with hr
  have hok : r.status = .ok := by
    rw [hr, hp]
    with_unfolding_all rfl
  obtain ⟨m', hrun⟩ := exists_interleaving RowStep.run
    (fun i : Fin r.pool.pool.nWorkers => usmWorkerSweep (r.pool.workers i)) r.memory
  have hends : r.Ends m' := by
    rw [UsmApplied.Ends, if_neg (by rw [hr, hp]; exact Bool.noConfusion)]
    exact fun _ => hrun
  exact ⟨planeAt m' 0 3, p, _, _, m, m', 0, 0, hreach, rfl, rfl, rfl, .inl rfl,
    (rect_disjoint_of_le (by decide) (by decide)).symm,
    (rect_disjoint_of_le (by decide) (by decide)).symm, hok, hends,
    fun _ _ _ _ => rfl, fun _ _ _ _ => rfl⟩

/-- A 2×2 plane and its mirror image. -/
theorem usm_symmetries_two :
    ∃ O₁ O₂, PoolSharpens 2 2 2 1 128 (planeAt UInt8.ofNat 0 3) O₁ ∧
      PoolSharpens 2 2 2 1 128
        (planeAt (fun a => UInt8.ofNat (if a % 3 = 0 then a + 1 else a - 1)) 0 3) O₂ ∧
      ∀ y < 2, ∀ x < 2, O₂ y x = O₁ y (mirror 2 x) := by
  obtain ⟨O₁, h₁⟩ := poolSharpens_two UInt8.ofNat
  obtain ⟨O₂, h₂⟩ := poolSharpens_two fun a => UInt8.ofNat (if a % 3 = 0 then a + 1 else a - 1)
  refine ⟨O₁, O₂, h₁, h₂, ?_⟩
  exact (usm_symmetries h₁ h₂).1 (by decide)

end AutoUpscale
