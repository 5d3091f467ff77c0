/-
What Open plans: the aligned source crop, the clamped configuration and the
scaler context (`src/autoupscale.c`, `src/scaler.h`).

`planOpen` is the planning half of `up_autoupscale_open`.  Its result carries
the facts of `OpenPlanned`: the planned target is an upscale with even
dimensions, and on every subsampled axis of the chroma the source crop is even
as well.
-/
import AutoUpscale.ChromaClassify

namespace AutoUpscale

/-- The fields of `fmt_in.video` that Open reads (all `unsigned`). -/
structure VideoFormat where
  chroma : ℕ
  width : ℕ
  height : ℕ
  visibleWidth : ℕ
  visibleHeight : ℕ
  xOffset : ℕ
  yOffset : ℕ
  deriving DecidableEq, Repr

/-- `source_crop_t` -/
structure SourceCrop where
  dims : Dims
  xOffset : ℕ
  yOffset : ℕ
  deriving DecidableEq, Repr

/-- `ResolveSourceCrop` -/
def resolveSourceCrop (fmt : VideoFormat) : SourceCrop :=
  let width := if fmt.visibleWidth ≠ 0 then fmt.visibleWidth else fmt.width
  let height := if fmt.visibleHeight ≠ 0 then fmt.visibleHeight else fmt.height
  let w : ℤ := if (width : ℤ) ≤ intMax then width else -1
  let h : ℤ := if (height : ℤ) ≤ intMax then height else -1
  let crop := alignCropEven fmt.chroma ⟨some w, some h, some fmt.xOffset, some fmt.yOffset⟩
  ⟨⟨crop.w.getD w, crop.h.getD h⟩, crop.x.getD fmt.xOffset, crop.y.getD fmt.yOffset⟩

/-- The options Open inherits, after the saturation of `InheritIntSat`. -/
structure Config where
  target : ℤ
  algo : ℤ
  skipAbove : ℤ
  usm : ℤ
  backend : ℤ
  threads : ℤ
  pinThreads : ℤ
  zerocopyDst : ℤ
  zerocopySrc : ℤ
  zimgStripeLines : ℤ
  deriving DecidableEq, Repr

/-- `UP_ALGO_MAX`, `SCALER_BACKEND_MAX`, `UP_USM_AMOUNT_MAX`, `UP_THREADS_MAX` -/
def algoMax : ℤ := 3
def backendMax : ℤ := 2
def usmAmountMax : ℤ := 200
def threadsMax : ℤ := 64

/-- `ClampConfig` -/
def clampConfig (cfg : Config) : Config :=
  { cfg with
    target := normalizeAutoEnum cfg.target targetMax
    algo := if cfg.algo < 0 then 0 else if cfg.algo > algoMax then algoMax else cfg.algo
    backend := normalizeAutoEnum cfg.backend backendMax
    usm := if cfg.usm < 0 then 0 else if cfg.usm > usmAmountMax then usmAmountMax else cfg.usm
    skipAbove := if cfg.skipAbove < 0 then 0 else cfg.skipAbove }

/-- The geometry and tunables of `scaler_ctx_t`. -/
structure ScalerCtx where
  srcW : ℤ
  srcH : ℤ
  srcCodedW : ℕ
  srcCodedH : ℕ
  srcXOffset : ℕ
  srcYOffset : ℕ
  dstW : ℤ
  dstH : ℤ
  algo : ℤ
  threadsPref : ℤ
  pinCpus : Bool
  minStripeLines : ℤ
  zerocopy : ℤ
  srcZerocopy : ℤ
  chroma : ℕ
  deriving DecidableEq, Repr

/-- `scaler_process_status_t` -/
inductive ProcessStatus
  | ok | transient | fatal
  deriving DecidableEq, Repr

/-- `scaler_process_needs_fallback` -/
def processNeedsFallback (status : ProcessStatus) : Bool :=
  status == .fatal

/-- `ConfigureScaler` -/
def configureScaler (fmt : VideoFormat) (cfg : Config) (src : SourceCrop)
    (target : Dims) : ScalerCtx :=
  let threads := if cfg.threads < 0 then 0 else cfg.threads
  let threads := if threads > threadsMax then threadsMax else threads
  { srcW := src.dims.width
    srcH := src.dims.height
    srcCodedW := fmt.width
    srcCodedH := fmt.height
    srcXOffset := src.xOffset
    srcYOffset := src.yOffset
    dstW := target.width
    dstH := target.height
    algo := cfg.algo
    threadsPref := threads
    pinCpus := decide (cfg.pinThreads ≠ 0)
    minStripeLines := cfg.zimgStripeLines
    zerocopy := cfg.zerocopyDst
    srcZerocopy := cfg.zerocopySrc
    chroma := fmt.chroma }

/-- The planning half of `up_autoupscale_open`: `none` is the bypass return. -/
def planOpen (fmt : VideoFormat) (cfg : Config) (cores : ℤ) : Option ScalerCtx :=
  let src := resolveSourceCrop fmt
  let cfg := clampConfig cfg
  let plan := planUpscale src.dims.width src.dims.height cfg.skipAbove cfg.target cores 0
  if ¬ plan.1 then none else some (configureScaler fmt cfg src plan.2)

/-! ### What planning guarantees -/

/-- On a subsampled axis the aligned crop has an even extent, and an even start
whenever the extent is positive. -/
theorem resolveSourceCrop_even {fmt : VideoFormat} {subW subH : ℕ}
    (hsub : chromaSubsample fmt.chroma = some (subW, subH)) :
    (subW ≠ 0 → (resolveSourceCrop fmt).dims.width % 2 = 0 ∧
        (0 < (resolveSourceCrop fmt).dims.width → (resolveSourceCrop fmt).xOffset % 2 = 0)) ∧
      (subH ≠ 0 → (resolveSourceCrop fmt).dims.height % 2 = 0 ∧
        (0 < (resolveSourceCrop fmt).dims.height →
          (resolveSourceCrop fmt).yOffset % 2 = 0)) := by
  unfold resolveSourceCrop
  dsimp only
  generalize (if ((if fmt.visibleWidth ≠ 0 then fmt.visibleWidth else fmt.width : ℕ) : ℤ)
    ≤ intMax then _ else (-1 : ℤ)) = w
  generalize (if ((if fmt.visibleHeight ≠ 0 then fmt.visibleHeight else fmt.height : ℕ) : ℤ)
    ≤ intMax then _ else (-1 : ℤ)) = h
  have haxis : ∀ (dim : ℤ) (off : ℕ), ∃ dim' off',
      alignAxisEven (some dim) (some off) = (some dim', some off') := by
    intro dim off
    unfold alignAxisEven
    dsimp only
    split_ifs <;> exact ⟨_, _, rfl⟩
  obtain ⟨w', x', hw⟩ := haxis w fmt.xOffset
  obtain ⟨h', y', hh⟩ := haxis h fmt.yOffset
  unfold alignCropEven
  rw [hsub]
  dsimp only
  refine ⟨fun hsw => ?_, fun hsh => ?_⟩
  · rw [if_pos hsw, hw]
    exact alignAxisEven_even hw
  · rw [if_pos hsh, hh]
    exact alignAxisEven_even hh

/-- What a planned context guarantees the backends. -/
structure OpenPlanned (ctx : ScalerCtx) : Prop where
  target : PlannedTarget ctx.srcW ctx.srcH ⟨ctx.dstW, ctx.dstH⟩
  srcW_even : ∀ subW subH, chromaSubsample ctx.chroma = some (subW, subH) → subW ≠ 0 →
    ctx.srcW % 2 = 0
  srcH_even : ∀ subW subH, chromaSubsample ctx.chroma = some (subW, subH) → subH ≠ 0 →
    ctx.srcH % 2 = 0
  xOffset_even : ∀ subW subH, chromaSubsample ctx.chroma = some (subW, subH) → subW ≠ 0 →
    ctx.srcXOffset % 2 = 0
  yOffset_even : ∀ subW subH, chromaSubsample ctx.chroma = some (subW, subH) → subH ≠ 0 →
    ctx.srcYOffset % 2 = 0

theorem planOpen_spec {fmt : VideoFormat} {cfg : Config} {cores : ℤ} {ctx : ScalerCtx}
    (h : planOpen fmt cfg cores = some ctx) : OpenPlanned ctx := by
  unfold planOpen at h
  dsimp only at h
  split_ifs at h with hplan
  rw [Option.some_inj] at h
  have htarget := planUpscale_spec (Prod.ext hplan rfl : planUpscale
    (resolveSourceCrop fmt).dims.width (resolveSourceCrop fmt).dims.height
    (clampConfig cfg).skipAbove (clampConfig cfg).target cores 0 = (true, _))
  subst h
  refine ⟨htarget, fun subW subH hs hne => ?_, fun subW subH hs hne => ?_,
    fun subW subH hs hne => ?_, fun subW subH hs hne => ?_⟩
  · exact ((resolveSourceCrop_even hs).1 hne).1
  · exact ((resolveSourceCrop_even hs).2 hne).1
  · exact ((resolveSourceCrop_even hs).1 hne).2 htarget.srcW_pos
  · exact ((resolveSourceCrop_even hs).2 hne).2 htarget.srcH_pos

end AutoUpscale
