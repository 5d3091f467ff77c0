/-
The filter's Open, Filter and Close (`src/autoupscale.c`) with the backend
choice they rest on (`src/scaler_pick_logic.h`, `src/scaler.c`).

What the backends, VLC and the USM pool do is not decided here: a
`FrameOutcome` says for one Filter call whether there is an input picture, what
the source view shows, whether an output picture can be had, how the backend's
`process`, a fallback `open` and the USM pass turn out.  Every function returns
the events it causes next to the new state, in order.

A backend obeys scaler.h: an open that fails leaves `ctx->priv` NULL, which is
`priv := false`.
-/
import AutoUpscale.ScalerContext
import AutoUpscale.UsmPool

namespace AutoUpscale

/-! ### Backends -/

inductive Backend
  | zimg | swscale
  deriving DecidableEq, Repr

/-- `SCALER_BACKEND_AUTO`, `SCALER_BACKEND_ZIMG`, `SCALER_BACKEND_SWSCALE` -/
def backendAuto : ℤ := 0
def backendZimg : ℤ := 1
def backendSwscale : ℤ := 2

/-- `scaler_backend_t.id` -/
def Backend.id : Backend → ℤ
  | .zimg => backendZimg
  | .swscale => backendSwscale

section Pick

variable {H : Type*}

/-- `up_pick_zimg_if_ok` -/
def pickZimgIfOk (zimg : Option H) (zimgSupports : Option (ℕ → ℤ → Bool)) (chroma : ℕ)
    (algo : ℤ) : Option H :=
  match zimg, zimgSupports with
  | some h, some supports => if supports chroma algo then some h else none
  | _, _ => none

/-- `up_pick_swscale_if_ok` -/
def pickSwscaleIfOk (swscale : H) (swscaleSupports : ℕ → ℤ → Bool) (chroma : ℕ)
    (algo : ℤ) : Option H :=
  if swscaleSupports chroma algo then some swscale else none

/-- `up_pick_auto` -/
def pickAuto (zimg : Option H) (zimgSupports : Option (ℕ → ℤ → Bool)) (swscale : H)
    (swscaleSupports : ℕ → ℤ → Bool) (chroma : ℕ) (algo : ℤ) : Option H :=
  match pickZimgIfOk zimg zimgSupports chroma algo with
  | some z => some z
  | none => pickSwscaleIfOk swscale swscaleSupports chroma algo

/-- `up_scaler_pick_with`; `none` is a NULL handle or callback. -/
def scalerPickWith (zimg : Option H) (zimgSupports : Option (ℕ → ℤ → Bool))
    (swscale : Option H) (swscaleSupports : Option (ℕ → ℤ → Bool))
    (pref : ℤ) (chroma : ℕ) (algo : ℤ) : Option H :=
  match swscale, swscaleSupports with
  | some sw, some swSupports =>
    if pref = backendZimg then pickZimgIfOk zimg zimgSupports chroma algo
    else if pref = backendSwscale then pickSwscaleIfOk sw swSupports chroma algo
    else pickAuto zimg zimgSupports sw swSupports chroma algo
  | _, _ => none

/-- `up_scaler_open_with_fallback`: the handle that opened, and the attempts. -/
def scalerOpenWithFallback [DecidableEq H] (preferred fallback : Option H)
    (openBackend : H → Bool) (allowFallback : Bool) : Option H × List H :=
  match preferred with
  | none => (none, [])
  | some p =>
    if openBackend p then (some p, [p])
    else
      match fallback with
      | none => (none, [p])
      | some f =>
        if allowFallback = false ∨ f = p then (none, [p])
        else if openBackend f then (some f, [p, f])
        else (none, [p, f])

end Pick

/-- The backends of a build: whether zimg is in, and each `supports`. -/
structure BackendEnv where
  haveZimg : Bool
  supports : Backend → ℕ → ℤ → Bool

/-- `scaler_pick` -/
def scalerPick (env : BackendEnv) (pref : ℤ) (chroma : ℕ) (algo : ℤ) : Option Backend :=
  scalerPickWith (if env.haveZimg then some .zimg else none)
    (if env.haveZimg then some (env.supports .zimg) else none)
    (some .swscale) (some (env.supports .swscale)) pref chroma algo

/-! ### The filter's state -/

/-- What a call does to backends and pictures.  `usmApply` is the status the
USM pass reports to the filter. -/
inductive PluginEvent
  | openBackend (b : Backend) (ok : Bool)
  | process (b : Backend) (status : ProcessStatus)
  | closeBackend (b : Backend)
  | newPicture (ok : Bool)
  | usmApply (status : UsmStatus)
  | releaseIn
  | releaseOut
  deriving DecidableEq, Repr

/-- `up_probe_metrics_t` -/
structure ProbeMetrics where
  lapSum : UInt64
  lapN : UInt64
  edgeSum : UInt64
  edgeN : UInt64
  deriving DecidableEq

/-- `up_probe_accum_t` -/
structure ProbeAccum where
  lapSum : UInt64
  lapSamples : UInt64
  edgeSum : UInt64
  edgeSamples : UInt64
  frames : ℕ
  deriving DecidableEq

/-- `filter_sys_t.probe` -/
structure Probe where
  advice : Bool
  active : Bool
  adviceLogged : Bool
  accum : ProbeAccum
  deriving DecidableEq

/-- `filter_sys_t`, with the backend half of `scaler_ctx_t` spelled out; `priv`
and `usmPool` say whether the pointer is non-NULL. -/
structure FilterSys where
  scaler : ScalerCtx
  backend : Option Backend
  priv : Bool
  usmAmountQ8 : ℤ
  usmPool : Bool
  probe : Probe
  usmSkipSharp : Bool
  usmSharpThreshold : ℤ
  backendPref : ℤ
  fallbackTried : Bool
  deriving DecidableEq

/-! ### Open -/

/-- The probe options `InitProbe` reads. -/
structure ProbeConfig where
  usmSharpThreshold : ℤ
  contentProbe : ℤ
  deriving DecidableEq

/-- How the allocations and backend opens of one Open turn out. -/
structure OpenOutcome where
  sysAlloc : Bool
  opens : Backend → Bool
  usmPoolCreate : Bool

/-- `up_opaque_chromas` -/
def opaqueChromas : List ℕ :=
  [fourcc 'V' 'A' 'O' 'P', fourcc 'V' 'A' 'O' '0', fourcc 'V' 'D' 'V' '0',
   fourcc 'V' 'D' 'V' '2', fourcc 'V' 'D' 'V' '4', fourcc 'V' 'D' 'O' 'R',
   fourcc 'D' 'X' 'A' '9', fourcc 'D' 'X' 'A' '0', fourcc 'D' 'X' '1' '1',
   fourcc 'D' 'X' '1' '0', fourcc 'M' 'M' 'A' 'L', fourcc 'C' 'V' 'P' 'N',
   fourcc 'C' 'V' 'P' 'Y', fourcc 'C' 'V' 'P' 'I', fourcc 'C' 'V' 'P' 'B',
   fourcc 'C' 'V' 'P' 'P']

/-- `up_chroma_is_opaque` -/
def chromaIsOpaque (c : ℕ) : Bool :=
  opaqueChromas.contains c

/-- `PickBackendOrReject` -/
def pickBackendOrReject (env : BackendEnv) (chroma : ℕ) (algo backendPref : ℤ) :
    Option Backend :=
  if chromaIsOpaque chroma then none else scalerPick env backendPref chroma algo

/-- `OpenScalerOrFallback`: the backend left open, and the attempts. -/
def openScalerOrFallback (env : BackendEnv) (backendPref : ℤ) (chroma : ℕ) (algo : ℤ)
    (preferred : Backend) (opens : Backend → Bool) : Option Backend × List PluginEvent :=
  let allowFallback := decide (backendPref = backendAuto ∧ preferred.id = backendZimg)
  let fallback := if allowFallback then scalerPick env backendSwscale chroma algo else none
  let r := scalerOpenWithFallback (some preferred) fallback opens allowFallback
  (r.1, r.2.map fun b => .openBackend b (opens b))

/-- `up_usm_amount_pct_to_q8` -/
def usmAmountPctToQ8 (amountPct : ℤ) : ℤ :=
  if amountPct ≤ 0 then 0
  else (if amountPct > usmAmountMax then usmAmountMax else amountPct) * 256 / 100

/-- `InitUsmPool` -/
def initUsmPool (s : FilterSys) (chroma : ℕ) (usmPct : ℤ) (poolCreate : Bool) : FilterSys :=
  if usmPct ≤ 0 ∨ chromaHasYPlane chroma = false then s
  else if poolCreate then { s with usmPool := true, usmAmountQ8 := usmAmountPctToQ8 usmPct }
  else s

/-- `InitProbe` -/
def initProbe (s : FilterSys) (pc : ProbeConfig) (chroma : ℕ) (usmPct : ℤ) : FilterSys :=
  let advice := decide (pc.contentProbe ≠ 0)
  { s with
    usmSharpThreshold := pc.usmSharpThreshold
    probe := { s.probe with
      advice := advice
      active := (advice || decide (pc.usmSharpThreshold > 0 ∧ usmPct > 0))
        && chromaHasYPlane chroma
      adviceLogged := false } }

/-- `up_autoupscale_open`: the filter's state when it succeeds. -/
def autoupscaleOpen (env : BackendEnv) (fmt : VideoFormat) (cfg : Config) (pc : ProbeConfig)
    (cores : ℤ) (o : OpenOutcome) : Option FilterSys × List PluginEvent :=
  match planOpen fmt cfg cores with
  | none => (none, [])
  | some ctx =>
    let cfg := clampConfig cfg
    match pickBackendOrReject env fmt.chroma cfg.algo cfg.backend with
    | none => (none, [])
    | some be =>
      if o.sysAlloc = false then (none, [])
      else
        let r := openScalerOrFallback env cfg.backend fmt.chroma cfg.algo be o.opens
        match r.1 with
        | none => (none, r.2)
        | some opened =>
          let s : FilterSys :=
            { scaler := ctx, backend := some opened, priv := true, usmAmountQ8 := 0,
              usmPool := false, probe := ⟨false, false, false, ⟨0, 0, 0, 0, 0⟩⟩,
              usmSkipSharp := false, usmSharpThreshold := 0,
              backendPref := cfg.backend, fallbackTried := false }
          let s := initUsmPool s fmt.chroma cfg.usm o.usmPoolCreate
          (some (initProbe s pc fmt.chroma cfg.usm), r.2)

/-! ### Filter -/

/-- How the calls made for one frame turn out.  Pictures are given by their
`i_planes`; `srcView` is what `up_probe_metrics` finds when the source view can
be built. -/
structure FrameOutcome where
  input : Option ℤ
  srcView : Option ProbeMetrics
  output : Option ℤ
  process : ProcessStatus
  fallbackOpens : Bool
  dstView : Bool
  usm : UsmStatus
  usmRetained : Bool

/-- `DisableUsm` -/
def disableUsm (s : FilterSys) : FilterSys :=
  { s with usmAmountQ8 := 0, usmPool := false }

/-- `UP_PROBE_WINDOW_FRAMES`, `UP_PROBE_MIN_FRAMES`,
`UP_PROBE_MIN_SAMPLES_PER_KIND` -/
def probeWindowFrames : ℕ := 60
def probeMinFrames : ℕ := 10
def probeMinSamplesPerKind : UInt64 := 20000

/-- `up_probe_observe` -/
def probeObserve (a : ProbeAccum) (m : ProbeMetrics) : ProbeAccum :=
  { lapSum := a.lapSum + m.lapSum
    lapSamples := a.lapSamples + m.lapN
    edgeSum := a.edgeSum + m.edgeSum
    edgeSamples := a.edgeSamples + m.edgeN
    frames := a.frames + 1 }

/-- `up_should_skip_usm_for_sharpness` -/
def shouldSkipUsmForSharpness (a : ProbeAccum) (threshold : ℤ) : Bool :=
  if threshold ≤ 0 then false
  else if a.lapSamples = 0 then false
  else decide (((a.lapSum / a.lapSamples).toNat : ℤ) > threshold)

/-- `up_should_bypass_for_content`, with `UP_PROBE_THRESH_SOFT_LAP_MEAN` and
`UP_PROBE_THRESH_BLOCKY_EDGE_MEAN`. -/
def shouldBypassForContent (a : ProbeAccum) : Bool :=
  if a.frames < probeMinFrames then false
  else if a.lapSamples < probeMinSamplesPerKind then false
  else if a.edgeSamples < probeMinSamplesPerKind then false
  else decide (a.lapSum / a.lapSamples < 400) && decide (a.edgeSum / a.edgeSamples > 6)

/-- `RunProbe`, with the one-shot latch of `LogProbeVerdict`. -/
def runProbe (s : FilterSys) (view : Option ProbeMetrics) : FilterSys :=
  match view with
  | none => s
  | some m =>
    let accum := probeObserve s.probe.accum m
    let s := { s with probe := { s.probe with accum := accum } }
    if accum.frames < probeWindowFrames then s
    else
      let s := { s with probe := { s.probe with active := false } }
      let s := if shouldSkipUsmForSharpness accum s.usmSharpThreshold then
          disableUsm { s with usmSkipSharp := true }
        else s
      if s.probe.advice ∧ shouldBypassForContent accum then
        { s with probe := { s.probe with adviceLogged := true } }
      else s

/-- `ApplyUsmIfEnabled` on an output picture of `planes` planes. -/
def applyUsmIfEnabled (s : FilterSys) (planes : ℤ) (o : FrameOutcome) :
    FilterSys × List PluginEvent × UsmStatus :=
  if s.usmAmountQ8 ≤ 0 ∨ s.usmPool = false ∨ planes < 1 ∨ s.usmSkipSharp then (s, [], .ok)
  else if o.dstView = false then (s, [], .ok)
  else if o.usm ≠ .ok then
    (if o.usmRetained then s else disableUsm s, [.usmApply o.usm], o.usm)
  else (s, [.usmApply .ok], .ok)

/-- The state, events and result of a Filter call. -/
structure FilterCall where
  sys : FilterSys
  log : List PluginEvent
  returned : Bool

/-- `FinishScaledFrame` -/
def finishScaledFrame (s : FilterSys) (planes : ℤ) (o : FrameOutcome) : FilterCall :=
  let r := applyUsmIfEnabled s planes o
  if r.2.2 = .outputUncertain then ⟨r.1, r.2.1 ++ [.releaseOut, .releaseIn], false⟩
  else ⟨r.1, r.2.1 ++ [.releaseIn], true⟩

/-- `RetireBackend` -/
def retireBackend (s : FilterSys) (be : Backend) : FilterSys × List PluginEvent :=
  ({ s with priv := false, backend := none }, [.closeBackend be])

/-- `TryBackendFallback`, called with the backend `be` in place. -/
def tryBackendFallback (env : BackendEnv) (s : FilterSys) (be : Backend) (opens : Bool) :
    FilterSys × List PluginEvent :=
  if s.fallbackTried then (s, [])
  else
    let s := { s with fallbackTried := true }
    if be.id ≠ backendZimg then (s, [])
    else if s.backendPref = backendZimg then retireBackend s be
    else
      let sw := scalerPick env backendSwscale s.scaler.chroma s.scaler.algo
      let r := retireBackend s be
      match sw with
      | none => r
      | some sw =>
        if opens then
          ({ r.1 with backend := some sw, priv := true }, r.2 ++ [.openBackend sw true])
        else ({ r.1 with backend := none }, r.2 ++ [.openBackend sw false])

/-- `Filter` -/
def filter (env : BackendEnv) (s : FilterSys) (o : FrameOutcome) : FilterCall :=
  match o.input with
  | none => ⟨s, [], false⟩
  | some inPlanes =>
    match s.backend with
    | none => ⟨s, [.releaseIn], false⟩
    | some be =>
      let s := if s.probe.active ∧ inPlanes ≥ 1 then runProbe s o.srcView else s
      match o.output with
      | none => ⟨s, [.newPicture false, .releaseIn], false⟩
      | some outPlanes =>
        if o.process ≠ .ok then
          let r := if processNeedsFallback o.process then
              tryBackendFallback env s be o.fallbackOpens
            else (s, [])
          ⟨r.1, [.newPicture true, .process be o.process] ++ r.2 ++ [.releaseOut, .releaseIn],
            false⟩
        else
          let r := finishScaledFrame s outPlanes o
          ⟨r.sys, [.newPicture true, .process be .ok] ++ r.log, r.returned⟩

/-- The Filter calls of a playback. -/
def filterRun (env : BackendEnv) (s : FilterSys) : List FrameOutcome → List FilterCall
  | [] => []
  | o :: os => filter env s o :: filterRun env (filter env s o).sys os

/-- The state after them. -/
def filterRunSys (env : BackendEnv) (s : FilterSys) : List FrameOutcome → FilterSys
  | [] => s
  | o :: os => filterRunSys env (filter env s o).sys os

/-! ### Close -/

/-- `up_autoupscale_close` -/
def autoupscaleClose (s : FilterSys) : List PluginEvent :=
  match s.backend with
  | some be => [.closeBackend be]
  | none => []

end AutoUpscale
