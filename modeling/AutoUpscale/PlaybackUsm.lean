/-
A playback with its pixels: the filter (`src/autoupscale.c`) over the adaptive
unsharp mask, with the content probe's sweep and the divisions of its verdict.

`AutoUpscale.Filter` leaves to an outcome what the USM pool does; here the pool
is the one of `AutoUpscale.UsmAdaptive`, and a frame brings the pixels of its
source view and those the backend writes.  The probe's log holds every source
view it observed and the verdict; a division by zero would be a `fault` in it.

* `playFilter_view` — seen through `view`, a frame is one of `AutoUpscale.Filter`
  with the outcome that the pool really has;
* **`playback_refines`** — so is a whole playback from Open.
-/
import AutoUpscale.ContentProbe
import AutoUpscale.AdaptivePools

namespace AutoUpscale

open Adaptive StridedLoop

/-! ### The verdict of the probe -/

/-- `a / b`, which has no value for a zero `b`. -/
def div64 (a b : UInt64) : Option UInt64 := if b = 0 then none else some (a / b)

/-- `up_should_skip_usm_for_sharpness` -/
def skipUsmForSharpness (a : ProbeAccum) (threshold : ℤ) : Option Bool :=
  if threshold ≤ 0 then some false
  else if a.lapSamples = 0 then some false
  else do
    let lapMean ← div64 a.lapSum a.lapSamples
    some (decide ((lapMean.toNat : ℤ) > threshold))

/-- `up_should_bypass_for_content` -/
def bypassForContent (a : ProbeAccum) : Option Bool :=
  if a.frames < probeMinFrames then some false
  else if a.lapSamples < probeMinSamplesPerKind then some false
  else if a.edgeSamples < probeMinSamplesPerKind then some false
  else do
    let lapMean ← div64 a.lapSum a.lapSamples
    let edgeMean ← div64 a.edgeSum a.edgeSamples
    some (decide (lapMean < 400) && decide (edgeMean > 6))

/-- `n ? sum / n : 0` -/
def meanOrZero (sum n : UInt64) : Option UInt64 := if n ≠ 0 then div64 sum n else some 0

/-- What `LogProbeVerdict` finds and shows. -/
structure ProbeAdvice where
  bypass : Bool
  lapMean : UInt64
  edgeMean : UInt64
  deriving DecidableEq

/-- What the probe decides when its window closes: whether USM is skipped, with
the mean of that message, and the advice when it is asked for. -/
structure ProbeVerdict where
  skip : Bool
  lapMean : Option UInt64
  advice : Option ProbeAdvice
  deriving DecidableEq

/-- `LogProbeVerdict` -/
def probeAdvice (a : ProbeAccum) : Option ProbeAdvice := do
  let bypass ← bypassForContent a
  let lapMean ← meanOrZero a.lapSum a.lapSamples
  let edgeMean ← meanOrZero a.edgeSum a.edgeSamples
  some ⟨bypass, lapMean, edgeMean⟩

/-- The end of `RunProbe`, with the arguments of its messages. -/
def probeVerdict (a : ProbeAccum) (threshold : ℤ) (advice : Bool) : Option ProbeVerdict := do
  let skip ← skipUsmForSharpness a threshold
  let lapMean ← (if skip then (div64 a.lapSum a.lapSamples).map some else some none)
  let shown ← (if advice then (probeAdvice a).map some else some none)
  some ⟨skip, lapMean, shown⟩

/-! ### The state of a playback -/

/-- `plane[0]` of a source view. -/
structure LumaView where
  pixels : ℤ → UInt8
  pitch : ℤ

/-- What the probe does. -/
inductive ProbeEvent
  | observed (view : LumaView)
  | verdict (v : ProbeVerdict)
  | fault

/-- `filter_sys_t`, with the unsharp mask's pools and pixels. -/
structure Playback (Pool Plane : Type*) where
  scaler : ScalerCtx
  backend : Option Backend
  priv : Bool
  probe : Probe
  usmSkipSharp : Bool
  usmSharpThreshold : ℤ
  backendPref : ℤ
  fallbackTried : Bool
  usm : UsmSystem Pool Plane
  probeLog : List ProbeEvent

/-- How the calls made for one frame turn out, with the luma plane `scaled` that
the backend's `process` writes. -/
structure PlayFrame (Pool Plane : Type*) where
  input : Option ℤ
  srcView : Option LumaView
  output : Option ℤ
  clock : Option Timespec
  process : ProcessStatus
  scaled : Plane
  fallbackOpens : Bool
  dstView : Bool
  env : FrameEnv Pool Plane

/-- One Filter call: the luma plane of the picture it returns, and what the USM
pass reports to the filter. -/
structure PlayCall (Pool Plane : Type*) where
  sys : Playback Pool Plane
  output : Option Plane
  status : UsmStatus

variable {Pool Plane : Type*}

/-! ### Open -/

/-- `usm-stripe-min-rows`, `adaptive-usm` -/
structure UsmOptions where
  stripeMin : ℤ
  adaptiveUsm : ℤ

/-- What `InitUsmPool` is called with. -/
def usmConfig (cfg : Config) (ctx : ScalerCtx) (cores : ℤ) (u : UsmOptions) : UsmConfig where
  usmPct := (clampConfig cfg).usm
  chroma := ctx.chroma
  threadsPref := ctx.threadsPref
  cores := cores
  width := ctx.dstW
  height := ctx.dstH
  stripeMin := u.stripeMin
  adaptiveUsm := u.adaptiveUsm

/-- The state in which Open leaves the playback, with its first USM pool. -/
def FilterSys.playback (s : FilterSys) (usm : UsmSystem Pool Plane) : Playback Pool Plane where
  scaler := s.scaler
  backend := s.backend
  priv := s.priv
  probe := s.probe
  usmSkipSharp := s.usmSkipSharp
  usmSharpThreshold := s.usmSharpThreshold
  backendPref := s.backendPref
  fallbackTried := s.fallbackTried
  usm := usm
  probeLog := []

/-- `up_autoupscale_open`, when it succeeds.  `create` is `up_usm_pool_create`. -/
def playOpen (backends : BackendEnv) (fmt : VideoFormat) (cfg : Config) (pc : ProbeConfig)
    (cores : ℤ) (o : OpenOutcome) (u : UsmOptions)
    (create : ℤ → ℤ → ℤ → ℤ → Option Pool) (plane : Plane) : Option (Playback Pool Plane) :=
  (autoupscaleOpen backends fmt cfg pc cores o).1.map fun s =>
    s.playback (Adaptive.initUsmPool (usmConfig cfg s.scaler cores u) create plane)

/-! ### Filter -/

namespace Playback

/-- The filter's state without pools and pixels. -/
def view (s : Playback Pool Plane) : FilterSys where
  scaler := s.scaler
  backend := s.backend
  priv := s.priv
  usmAmountQ8 := s.usm.amountQ8
  usmPool := s.usm.pool.isSome
  probe := s.probe
  usmSkipSharp := s.usmSkipSharp
  usmSharpThreshold := s.usmSharpThreshold
  backendPref := s.backendPref
  fallbackTried := s.fallbackTried

/-- What `up_probe_metrics` finds on a source view. -/
def metrics (s : Playback Pool Plane) (v : LumaView) : ProbeMetrics :=
  (probeMetrics (some v.pixels) v.pitch s.scaler.srcW s.scaler.srcH).val

/-- `up_probe_observe` on a source view. -/
def observe (s : Playback Pool Plane) (v : LumaView) : Playback Pool Plane :=
  { s with
    probe := { s.probe with accum := probeObserve s.probe.accum (s.metrics v) }
    probeLog := s.probeLog ++ [.observed v] }

/-- `RunProbe` once the window is full. -/
def closeWindow (s : Playback Pool Plane) : Playback Pool Plane :=
  let s := { s with probe := { s.probe with active := false } }
  match probeVerdict s.probe.accum s.usmSharpThreshold s.probe.advice with
  | none => { s with probeLog := s.probeLog ++ [.fault] }
  | some v =>
    let s := { s with probeLog := s.probeLog ++ [.verdict v] }
    let s := if v.skip then { s with usmSkipSharp := true, usm := Adaptive.disableUsm s.usm } else s
    if v.advice.any ProbeAdvice.bypass then
      { s with probe := { s.probe with adviceLogged := true } }
    else s

/-- `RunProbe` -/
def runProbe (s : Playback Pool Plane) : Option LumaView → Playback Pool Plane
  | none => s
  | some v =>
    let s := s.observe v
    if s.probe.accum.frames < probeWindowFrames then s else s.closeWindow

/-- `ApplyUsmIfEnabled` on an output picture of `planes` planes, whose luma plane
the backend has written. -/
def applyUsm (threads : Pool → ℤ) (s : Playback Pool Plane) (planes : ℤ)
    (f : PlayFrame Pool Plane) : UsmStatus × Playback Pool Plane :=
  let usm := { s.usm with plane := f.scaled }
  if usm.amountQ8 ≤ 0 ∨ usm.pool = none ∨ planes < 1 ∨ s.usmSkipSharp then
    (.ok, { s with usm := usm })
  else if f.dstView = false then (.ok, { s with usm := usm })
  else
    let r := Adaptive.applyUsmIfEnabled threads usm f.env
    (r.1, { s with usm := r.2 })

/-- `FinishScaledFrame` -/
def finish (threads : Pool → ℤ) (s : Playback Pool Plane) (planes : ℤ)
    (f : PlayFrame Pool Plane) : PlayCall Pool Plane :=
  let r := s.applyUsm threads planes f
  if r.1 = .outputUncertain then ⟨r.2, none, r.1⟩
  else ⟨r.2, some r.2.usm.plane, r.1⟩

/-- `TryBackendFallback`, which is about the backend only. -/
def fallback (backends : BackendEnv) (s : Playback Pool Plane) (be : Backend) (opens : Bool) :
    Playback Pool Plane :=
  let r := (tryBackendFallback backends s.view be opens).1
  { s with backend := r.backend, priv := r.priv, fallbackTried := r.fallbackTried }

end Playback

/-- `Filter` -/
def playFilter (backends : BackendEnv) (threads : Pool → ℤ) (s : Playback Pool Plane)
    (f : PlayFrame Pool Plane) : PlayCall Pool Plane :=
  match f.input with
  | none => ⟨s, none, .ok⟩
  | some inPlanes =>
    match s.backend with
    | none => ⟨s, none, .ok⟩
    | some be =>
      let s := if s.probe.active ∧ inPlanes ≥ 1 then s.runProbe f.srcView else s
      match f.output with
      | none => ⟨s, none, .ok⟩
      | some outPlanes =>
        let s := { s with usm := usmAdaptiveBegin s.usm f.clock }
        if f.process ≠ .ok then
          let s := if processNeedsFallback f.process then
              s.fallback backends be f.fallbackOpens
            else s
          ⟨s, none, .ok⟩
        else s.finish threads outPlanes f

/-- The state after the Filter calls of a playback. -/
def playRun (backends : BackendEnv) (threads : Pool → ℤ) (s : Playback Pool Plane)
    (frames : List (PlayFrame Pool Plane)) : Playback Pool Plane :=
  frames.foldl (fun s f => (playFilter backends threads s f).sys) s

/-! ### The verdict divides by no zero -/

section

variable (a : ProbeAccum)

theorem div64_eq {n : UInt64} (hn : n ≠ 0) (sum : UInt64) : div64 sum n = some (sum / n) :=
  if_neg hn

theorem skipUsmForSharpness_eq (threshold : ℤ) :
    skipUsmForSharpness a threshold = some (shouldSkipUsmForSharpness a threshold) := by
  unfold skipUsmForSharpness shouldSkipUsmForSharpness
  by_cases ht : threshold ≤ 0
  · rw [if_pos ht, if_pos ht]
  by_cases hn : a.lapSamples = 0
  · rw [if_neg ht, if_neg ht, if_pos hn, if_pos hn]
  · rw [if_neg ht, if_neg ht, if_neg hn, if_neg hn, div64_eq hn]
    rfl

/-- As many samples as the bypass advice needs are not none. -/
theorem samples_ne_zero {n : UInt64} (hn : ¬ n < probeMinSamplesPerKind) : n ≠ 0 := by
  rintro rfl
  exact hn (by decide)

theorem bypassForContent_eq : bypassForContent a = some (shouldBypassForContent a) := by
  unfold bypassForContent shouldBypassForContent
  by_cases hframes : a.frames < probeMinFrames
  · rw [if_pos hframes, if_pos hframes]
  by_cases hlap : a.lapSamples < probeMinSamplesPerKind
  · rw [if_neg hframes, if_neg hframes, if_pos hlap, if_pos hlap]
  by_cases hedge : a.edgeSamples < probeMinSamplesPerKind
  · rw [if_neg hframes, if_neg hframes, if_neg hlap, if_neg hlap, if_pos hedge, if_pos hedge]
  · rw [if_neg hframes, if_neg hframes, if_neg hlap, if_neg hlap, if_neg hedge, if_neg hedge,
      div64_eq (samples_ne_zero hlap), div64_eq (samples_ne_zero hedge)]
    rfl

theorem meanOrZero_eq (sum n : UInt64) :
    meanOrZero sum n = some (if n ≠ 0 then sum / n else 0) := by
  unfold meanOrZero
  by_cases hn : n ≠ 0
  · rw [if_pos hn, if_pos hn, div64_eq hn]
  · rw [if_neg hn, if_neg hn]

theorem probeAdvice_eq : ∃ p, probeAdvice a = some p ∧ p.bypass = shouldBypassForContent a := by
  unfold probeAdvice
  rw [bypassForContent_eq, meanOrZero_eq, meanOrZero_eq]
  exact ⟨_, rfl, rfl⟩

/-- The probe always comes to a verdict, the one of `AutoUpscale.Filter`. -/
theorem probeVerdict_eq (threshold : ℤ) (advice : Bool) :
    ∃ v, probeVerdict a threshold advice = some v ∧
      v.skip = shouldSkipUsmForSharpness a threshold ∧
      v.advice.any ProbeAdvice.bypass = (advice && shouldBypassForContent a) := by
  obtain ⟨p, hp, hbypass⟩ := probeAdvice_eq a
  have hshown : (if advice then (probeAdvice a).map some else some none)
      = some (if advice then some p else none) := by
    rw [hp]
    cases advice <;> rfl
  have hany : (if advice then some p else none).any ProbeAdvice.bypass
      = (advice && shouldBypassForContent a) := by
    cases advice
    · rfl
    · exact hbypass
  unfold probeVerdict
  rw [skipUsmForSharpness_eq, hshown]
  cases hskip : shouldSkipUsmForSharpness a threshold with
  | false => exact ⟨_, rfl, rfl, hany⟩
  | true =>
    -- the message divides by the samples that the gate found
    have hn : a.lapSamples ≠ 0 := by
      intro hn
      unfold shouldSkipUsmForSharpness at hskip
      rw [if_pos hn, ite_self] at hskip
      cases hskip
    rw [div64_eq hn]
    exact ⟨_, rfl, rfl, hany⟩

end

/-! ### Only `DisableUsm` changes the amount -/

section Amount

variable (s : UsmSystem Pool Plane)

theorem destroyPool_amount (k : Option ℕ) : (s.destroyPool k).amountQ8 = s.amountQ8 := by
  cases k with
  | none => rfl
  | some k =>
    unfold UsmSystem.destroyPool
    dsimp only
    split <;> rfl

theorem usmAdaptiveClearTrial_amount : (usmAdaptiveClearTrial s).amountQ8 = s.amountQ8 :=
  destroyPool_amount s _

theorem usmAdaptiveStop_amount : (usmAdaptiveStop s).amountQ8 = s.amountQ8 :=
  usmAdaptiveClearTrial_amount s

theorem applyPool_amount (env : FrameEnv Pool Plane) (amountQ8 : ℤ) (k : Option ℕ) :
    (s.applyPool env amountQ8 k).2.amountQ8 = s.amountQ8 := by
  cases k with
  | none => rfl
  | some k =>
    unfold UsmSystem.applyPool
    dsimp only
    split <;> rfl

theorem usmAdaptiveBegin_amount (clock : Option Timespec) :
    (usmAdaptiveBegin s clock).amountQ8 = s.amountQ8 := by
  obtain ⟨_, _, _, hbegin⟩ := usmAdaptiveBegin_eq s clock
  rw [hbegin]
  rfl

theorem usmAdaptiveBegin_pool (clock : Option Timespec) :
    (usmAdaptiveBegin s clock).pool = s.pool := by
  obtain ⟨_, _, _, hbegin⟩ := usmAdaptiveBegin_eq s clock
  rw [hbegin]
  rfl

theorem usmAdaptiveSelect_amount (env : FrameEnv Pool Plane) (best : Option ℕ) :
    (usmAdaptiveSelect s env best).2.amountQ8 = s.amountQ8 := by
  unfold usmAdaptiveSelect
  split
  · rfl
  split
  · rfl
  dsimp only
  split
  · exact (usmAdaptiveStop_amount _).trans (usmAdaptiveClearTrial_amount s)
  · exact usmAdaptiveClearTrial_amount s

theorem usmAdaptiveTakeStart_amount (clock : Option Timespec) :
    (usmAdaptiveTakeStart s clock).2.amountQ8 = s.amountQ8 := by
  unfold usmAdaptiveTakeStart
  split <;> rfl

theorem usmAdaptiveAccept_amount (elapsed : Float) :
    (usmAdaptiveAccept s elapsed).amountQ8 = s.amountQ8 := by
  unfold usmAdaptiveAccept
  dsimp only
  split
  · split
    · exact usmAdaptiveClearTrial_amount _
    · rfl
  · exact destroyPool_amount _ _

theorem usmAdaptiveRecover_amount (env : FrameEnv Pool Plane) (best : Option ℕ)
    (status : UsmStatus) (amountQ8 : ℤ) :
    (usmAdaptiveRecover s env best status amountQ8).2.amountQ8 = s.amountQ8 := by
  unfold usmAdaptiveRecover
  dsimp only
  split
  · exact usmAdaptiveStop_amount s
  · exact (applyPool_amount _ _ _ _).trans (usmAdaptiveStop_amount s)

theorem usmAdaptiveApply_amount (threads : Pool → ℤ) (env : FrameEnv Pool Plane)
    (amountQ8 : ℤ) : (usmAdaptiveApply threads s env amountQ8).2.amountQ8 = s.amountQ8 := by
  unfold usmAdaptiveApply
  dsimp only
  set u := s.setAdaptive { s.adaptive with retained := false }
  have hu : u.amountQ8 = s.amountQ8 := rfl
  set select := if u.adaptive.enabled then usmAdaptiveSelect u env u.pool else (u.pool, u)
  have hselect : select.2.amountQ8 = s.amountQ8 := by
    show (if u.adaptive.enabled then usmAdaptiveSelect u env u.pool else (u.pool, u)).2.amountQ8
      = s.amountQ8
    split
    · exact usmAdaptiveSelect_amount u env u.pool
    · exact hu
  set take := if select.2.adaptive.enabled then usmAdaptiveTakeStart select.2 env.startClock
    else (none, select.2)
  have htake : take.2.amountQ8 = s.amountQ8 := by
    show (if select.2.adaptive.enabled then usmAdaptiveTakeStart select.2 env.startClock
      else (none, select.2)).2.amountQ8 = s.amountQ8
    split
    · exact (usmAdaptiveTakeStart_amount _ _).trans hselect
    · exact hselect
  set r := take.2.applyPool env amountQ8 select.1
  have hr : r.2.amountQ8 = s.amountQ8 := (applyPool_amount _ _ _ _).trans htake
  split
  · exact (usmAdaptiveRecover_amount _ _ _ _ _).trans hr
  split
  · exact hr
  split
  · exact (usmAdaptiveStop_amount _).trans hr
  split
  · exact (usmAdaptiveStop_amount _).trans hr
  · exact (usmAdaptiveAccept_amount _ _).trans hr

end Amount

/-! ### A frame is one of the filter's -/

section View

variable {threads : Pool → ℤ} {backends : BackendEnv} {s : Playback Pool Plane}

theorem disableUsm_amount (u : UsmSystem Pool Plane) : (Adaptive.disableUsm u).amountQ8 = 0 :=
  (destroyPool_amount _ _).trans (usmAdaptiveStop_amount _)

theorem disableUsm_retained (u : UsmSystem Pool Plane) :
    (Adaptive.disableUsm u).adaptive.retained = u.adaptive.retained := by
  show ((usmAdaptiveStop { u with amountQ8 := 0 }).destroyPool _).adaptive.retained = _
  rw [destroyPool_adaptive]
  show (UsmSystem.destroyPool { u with amountQ8 := 0 } u.adaptive.trial).adaptive.retained = _
  rw [destroyPool_adaptive]

/-- Everything that closing the window does. -/
theorem closeWindow_eq (s : Playback Pool Plane) :
    ∃ v, probeVerdict s.probe.accum s.usmSharpThreshold s.probe.advice = some v ∧
      s.closeWindow =
        { s with
          probe :=
            { s.probe with
              active := false
              adviceLogged := v.advice.any ProbeAdvice.bypass || s.probe.adviceLogged }
          probeLog := s.probeLog ++ [.verdict v]
          usmSkipSharp := v.skip || s.usmSkipSharp
          usm := if v.skip then Adaptive.disableUsm s.usm else s.usm } := by
  obtain ⟨v, hv, -⟩ := probeVerdict_eq s.probe.accum s.usmSharpThreshold s.probe.advice
  refine ⟨v, hv, ?_⟩
  unfold Playback.closeWindow
  dsimp only
  rw [hv]
  dsimp only
  cases v.skip <;> cases v.advice.any ProbeAdvice.bypass <;> rfl

/-- Closing the window keeps the mask's half of the state, or switches it off. -/
theorem closeWindow_usm (s : Playback Pool Plane) :
    s.closeWindow.usm = s.usm ∨ s.closeWindow.usm = Adaptive.disableUsm s.usm := by
  obtain ⟨v, -, heq⟩ := closeWindow_eq s
  rw [heq]
  cases v.skip with
  | false => exact .inl rfl
  | true => exact .inr rfl

/-- What observing a view and closing the window preserve, the probe preserves. -/
theorem runProbe_preserves {P : Playback Pool Plane → Prop}
    (observe : ∀ s v, P s → P (s.observe v)) (close : ∀ s, P s → P s.closeWindow) (hs : P s)
    (v : Option LumaView) : P (s.runProbe v) := by
  cases v with
  | none => exact hs
  | some v =>
    unfold Playback.runProbe
    dsimp only
    split
    · exact observe s v hs
    · exact close _ (observe s v hs)

/-- Closing the window, as `AutoUpscale.runProbe` does it. -/
theorem view_closeWindow :
    s.closeWindow.view =
      let v := { s.view with probe := { s.view.probe with active := false } }
      let v := if shouldSkipUsmForSharpness s.probe.accum v.usmSharpThreshold then
          disableUsm { v with usmSkipSharp := true }
        else v
      if v.probe.advice ∧ shouldBypassForContent s.probe.accum then
        { v with probe := { v.probe with adviceLogged := true } }
      else v := by
  obtain ⟨v, hv, heq⟩ := closeWindow_eq s
  obtain ⟨v', hv', hskip, hbypass⟩ :=
    probeVerdict_eq s.probe.accum s.usmSharpThreshold s.probe.advice
  obtain rfl : v = v' := Option.some.inj (hv.symm.trans hv')
  rw [heq, hskip, hbypass]
  unfold Playback.view AutoUpscale.disableUsm
  dsimp only
  by_cases hs : shouldSkipUsmForSharpness s.probe.accum s.usmSharpThreshold = true
  · rw [hs, if_pos rfl, if_pos rfl, disableUsm_amount]
    by_cases hb : s.probe.advice = true ∧ shouldBypassForContent s.probe.accum = true
    · rw [if_pos hb, Bool.and_eq_true_iff.mpr hb]
      rfl
    · rw [Bool.eq_false_iff.mpr (mt Bool.and_eq_true_iff.mp hb), if_neg hb]
      rfl
  · rw [Bool.eq_false_iff.mpr hs, if_neg Bool.false_ne_true, if_neg Bool.false_ne_true]
    by_cases hb : s.probe.advice = true ∧ shouldBypassForContent s.probe.accum = true
    · rw [if_pos hb, Bool.and_eq_true_iff.mpr hb]
      rfl
    · rw [Bool.eq_false_iff.mpr (mt Bool.and_eq_true_iff.mp hb), if_neg hb]
      rfl

theorem view_runProbe (v : Option LumaView) :
    (s.runProbe v).view = runProbe s.view (v.map s.metrics) := by
  cases v with
  | none => rfl
  | some v =>
    show (if (probeObserve s.probe.accum (s.metrics v)).frames < probeWindowFrames
      then s.observe v else (s.observe v).closeWindow).view = _
    unfold runProbe
    dsimp only [Option.map_some]
    split
    · rename_i hframes
      rw [if_pos (show (probeObserve s.view.probe.accum (s.metrics v)).frames < _ from hframes)]
      rfl
    · rename_i hframes
      rw [if_neg (show ¬ (probeObserve s.view.probe.accum (s.metrics v)).frames < _ from hframes)]
      exact view_closeWindow

/-- A pool that works on a picture stays, with its amount. -/
theorem view_setUsm {u : UsmSystem Pool Plane} (hamount : u.amountQ8 = s.usm.amountQ8)
    (hpool : u.pool.isSome = s.usm.pool.isSome) : { s with usm := u }.view = s.view := by
  unfold Playback.view
  dsimp only
  rw [hamount, hpool]

/-- `ApplyUsmIfEnabled` with the outcome that the pool has. -/
theorem view_applyUsm (h : AdaptiveInv threads s.usm) (planes : ℤ) {f : PlayFrame Pool Plane}
    {o : FrameOutcome} (hdst : o.dstView = f.dstView)
    (husm : o.usm = (s.applyUsm threads planes f).1)
    (hretained : o.usmRetained = (s.applyUsm threads planes f).2.usm.adaptive.retained) :
    (applyUsmIfEnabled s.view planes o).1 = (s.applyUsm threads planes f).2.view ∧
      (applyUsmIfEnabled s.view planes o).2.2 = (s.applyUsm threads planes f).1 := by
  have hguard : (s.view.usmAmountQ8 ≤ 0 ∨ s.view.usmPool = false ∨ planes < 1 ∨
      s.view.usmSkipSharp) ↔
      (s.usm.amountQ8 ≤ 0 ∨ s.usm.pool = none ∨ planes < 1 ∨ s.usmSkipSharp) := by
    show (_ ∨ s.usm.pool.isSome = false ∨ _) ↔ _
    rw [← Option.not_isSome_iff_eq_none, Bool.not_eq_true]
    rfl
  unfold Playback.applyUsm at *
  unfold applyUsmIfEnabled
  dsimp only at husm hretained ⊢
  by_cases hoff : s.usm.amountQ8 ≤ 0 ∨ s.usm.pool = none ∨ planes < 1 ∨ s.usmSkipSharp
  · rw [if_pos (hguard.mpr hoff), if_pos hoff]
    exact ⟨rfl, rfl⟩
  rw [if_neg hoff] at husm hretained
  rw [if_neg (fun hv => hoff (hguard.mp hv)), if_neg hoff, hdst]
  by_cases hview : f.dstView = false
  · rw [if_pos hview, if_pos hview]
    exact ⟨rfl, rfl⟩
  rw [if_neg hview] at husm hretained
  rw [if_neg hview, if_neg hview]
  -- the pass runs on the pool in use
  set u := { s.usm with plane := f.scaled }
  have hinv : AdaptiveInv threads u :=
    h.flags s.usm.adaptive.retained s.usm.adaptive.framePending s.usm.adaptive.frameTimed
      s.usm.adaptive.frameStart f.scaled
  cases applyUsmIfEnabled_exit threads u f.env with
  | off hu _ =>
    rcases hu with hle | hn
    · exact absurd (.inl hle) hoff
    · exact absurd (.inr (.inl hn)) hoff
  | kept _ hpool hcall hout =>
    have hkeep : { s with usm := (usmAdaptiveApply threads u f.env u.amountQ8).2 }.view
        = s.view := by
      refine view_setUsm (usmAdaptiveApply_amount u threads f.env u.amountQ8) ?_
      have hlaw := usmAdaptiveApply_callLaw hinv hpool f.env u.amountQ8
      rw [Option.isSome_iff_ne_none.mpr hlaw.pool, Option.isSome_iff_ne_none.mpr hpool]
    rw [hout] at husm hretained ⊢
    rcases hcall with hok | hret
    · rw [if_neg (not_not.mpr (husm.trans hok))]
      exact ⟨hkeep.symm, hok.symm⟩
    · rw [hretained, if_pos hret]
      split
      · exact ⟨hkeep.symm, husm⟩
      · rename_i hok
        exact ⟨hkeep.symm, (not_not.mp hok).symm.trans husm⟩
  | disabled _ _ hfail hret hout =>
    rw [hout] at husm hretained ⊢
    have hret' : ¬ o.usmRetained = true := by
      rw [hretained, disableUsm_retained, hret]
      exact Bool.false_ne_true
    rw [if_pos (husm ▸ hfail), if_neg hret']
    refine ⟨?_, husm⟩
    show disableUsm s.view = { s with usm := Adaptive.disableUsm _ }.view
    unfold disableUsm Playback.view
    dsimp only
    rw [disableUsm_amount]
    rfl

theorem view_fallback (be : Backend) (ok : Bool) :
    (s.fallback backends be ok).view = (tryBackendFallback backends s.view be ok).1 := by
  unfold Playback.fallback tryBackendFallback retireBackend
  dsimp only
  repeat' split
  all_goals rfl

theorem finish_sys (threads : Pool → ℤ) (s : Playback Pool Plane) (planes : ℤ)
    (f : PlayFrame Pool Plane) :
    (s.finish threads planes f).sys = (s.applyUsm threads planes f).2 ∧
      (s.finish threads planes f).status = (s.applyUsm threads planes f).1 := by
  unfold Playback.finish
  dsimp only
  split <;> exact ⟨rfl, rfl⟩

/-- `FinishScaledFrame` with the outcome that the pool has. -/
theorem view_finish (h : AdaptiveInv threads s.usm) (planes : ℤ) {f : PlayFrame Pool Plane}
    {o : FrameOutcome} (hdst : o.dstView = f.dstView)
    (husm : o.usm = (s.finish threads planes f).status)
    (hretained : o.usmRetained = (s.finish threads planes f).sys.usm.adaptive.retained) :
    (finishScaledFrame s.view planes o).sys = (s.finish threads planes f).sys.view ∧
      (finishScaledFrame s.view planes o).returned = (s.finish threads planes f).output.isSome := by
  obtain ⟨hsys, hstatus⟩ := finish_sys threads s planes f
  obtain ⟨hview, hreport⟩ := view_applyUsm h planes hdst (husm.trans hstatus)
    (hretained.trans (by rw [hsys]))
  unfold finishScaledFrame
  dsimp only
  rw [hview, hreport, hsys]
  unfold Playback.finish
  dsimp only
  split <;> exact ⟨rfl, rfl⟩

variable (threads backends) in
/-- A Filter call drops its frame or finishes it, in a state that the probe and
the clock have left as they leave any. -/
theorem playFilter_move {P : Playback Pool Plane → Prop}
    (probe : ∀ s v, s.probe.active = true → P s → P (s.runProbe v))
    (start : ∀ s clock, P s → P { s with usm := usmAdaptiveBegin s.usm clock })
    (hs : P s) (f : PlayFrame Pool Plane) :
    let c := playFilter backends threads s f
    (c.output = none ∧ c.status = .ok ∧
        ∃ s', P s' ∧ (c.sys = s' ∨ ∃ be ok, c.sys = s'.fallback backends be ok)) ∨
      ∃ s' planes, P s' ∧ c = s'.finish threads planes f := by
  unfold playFilter
  cases f.input with
  | none => exact .inl ⟨rfl, rfl, s, hs, .inl rfl⟩
  | some inPlanes =>
  cases s.backend with
  | none => exact .inl ⟨rfl, rfl, s, hs, .inl rfl⟩
  | some be =>
  dsimp only
  have hprobed : P (if s.probe.active ∧ inPlanes ≥ 1 then s.runProbe f.srcView else s) := by
    split
    · rename_i hactive
      exact probe s f.srcView hactive.1 hs
    · exact hs
  cases f.output with
  | none => exact .inl ⟨rfl, rfl, _, hprobed, .inl rfl⟩
  | some outPlanes =>
  have hstarted := start _ f.clock hprobed
  dsimp only
  split
  · refine .inl ⟨rfl, rfl, _, hstarted, ?_⟩
    dsimp only
    split
    · exact .inr ⟨be, f.fallbackOpens, rfl⟩
    · exact .inl rfl
  · exact .inr ⟨_, outPlanes, hstarted, rfl⟩

/-- What every part of a Filter call preserves, the call preserves. -/
theorem playFilter_preserves {P : Playback Pool Plane → Prop}
    (probe : ∀ s v, s.probe.active = true → P s → P (s.runProbe v))
    (start : ∀ s clock, P s → P { s with usm := usmAdaptiveBegin s.usm clock })
    (fallback : ∀ s be ok, P s → P (s.fallback backends be ok))
    (apply : ∀ s planes f, P s → P (s.applyUsm threads planes f).2)
    (hs : P s) (f : PlayFrame Pool Plane) : P (playFilter backends threads s f).sys := by
  rcases playFilter_move threads backends probe start hs f with
    ⟨-, -, s', hs', hsys⟩ | ⟨s', planes, hs', hcall⟩
  · rcases hsys with hsys | ⟨be, ok, hsys⟩
    · rw [hsys]
      exact hs'
    · rw [hsys]
      exact fallback s' be ok hs'
  · rw [hcall, (finish_sys threads s' planes f).1]
    exact apply s' planes f hs'

theorem playRun_preserves {P : Playback Pool Plane → Prop}
    (hstep : ∀ s f, P s → P (playFilter backends threads s f).sys) (hs : P s)
    (frames : List (PlayFrame Pool Plane)) : P (playRun backends threads s frames) := by
  induction frames generalizing s with
  | nil => exact hs
  | cons f frames ih => exact ih (hstep s f hs)

/-! ### The ownership of the pools over a playback -/

theorem closeWindow_inv (h : AdaptiveInv threads s.usm) :
    AdaptiveInv threads s.closeWindow.usm := by
  rcases closeWindow_usm s with hkept | hoff
  · rw [hkept]
    exact h
  · rw [hoff]
    exact disableUsm_inv h.owns

theorem runProbe_inv (h : AdaptiveInv threads s.usm) (v : Option LumaView) :
    AdaptiveInv threads (s.runProbe v).usm :=
  runProbe_preserves (P := fun s => AdaptiveInv threads s.usm) (fun _ _ hs => hs)
    (fun _ hs => closeWindow_inv hs) h v

theorem applyUsm_inv (h : AdaptiveInv threads s.usm) (planes : ℤ) (f : PlayFrame Pool Plane) :
    AdaptiveInv threads (s.applyUsm threads planes f).2.usm := by
  have hinv : AdaptiveInv threads { s.usm with plane := f.scaled } :=
    h.flags s.usm.adaptive.retained s.usm.adaptive.framePending s.usm.adaptive.frameTimed
      s.usm.adaptive.frameStart f.scaled
  unfold Playback.applyUsm
  dsimp only
  split
  · exact hinv
  split
  · exact hinv
  · exact applyUsmIfEnabled_inv hinv f.env

theorem playFilter_inv (h : AdaptiveInv threads s.usm) (f : PlayFrame Pool Plane) :
    AdaptiveInv threads (playFilter backends threads s f).sys.usm := by
  refine playFilter_preserves (P := fun s => AdaptiveInv threads s.usm) ?_ ?_ ?_ ?_ h f
  · intro s v _ hs
    exact runProbe_inv hs v
  · intro s clock hs
    exact usmAdaptiveBegin_inv hs clock
  · intro s be ok hs
    exact hs
  · intro s planes f hs
    exact applyUsm_inv hs planes f

theorem playRun_inv (h : AdaptiveInv threads s.usm) (frames : List (PlayFrame Pool Plane)) :
    AdaptiveInv threads (playRun backends threads s frames).usm :=
  playRun_preserves (P := fun s => AdaptiveInv threads s.usm) (fun _ f hs => playFilter_inv hs f)
    h frames

theorem playOpen_inv {fmt : VideoFormat} {cfg : Config} {pc : ProbeConfig} {cores : ℤ}
    {o : OpenOutcome} {u : UsmOptions} {create : ℤ → ℤ → ℤ → ℤ → Option Pool} {plane : Plane}
    (hopen : playOpen backends fmt cfg pc cores o u create plane = some s) :
    AdaptiveInv threads s.usm := by
  obtain ⟨sys, -, rfl⟩ := Option.map_eq_some_iff.mp hopen
  exact initUsmPool_inv _ create plane

/-! ### The refinement -/

/-- The outcome that a frame has for `AutoUpscale.filter`. -/
def PlayFrame.outcome (f : PlayFrame Pool Plane) (s : Playback Pool Plane)
    (c : PlayCall Pool Plane) : FrameOutcome where
  input := f.input
  srcView := f.srcView.map s.metrics
  output := f.output
  process := f.process
  fallbackOpens := f.fallbackOpens
  dstView := f.dstView
  usm := c.status
  usmRetained := c.sys.usm.adaptive.retained

/-- **A frame is one of the filter's**, with the outcome that the pool really has. -/
theorem playFilter_view (h : AdaptiveInv threads s.usm) (f : PlayFrame Pool Plane) :
    let c := playFilter backends threads s f
    let d := filter backends s.view (f.outcome s c)
    d.sys = c.sys.view ∧ d.returned = c.output.isSome := by
  intro c d
  show (filter backends s.view (f.outcome s c)).sys = c.sys.view ∧
    (filter backends s.view (f.outcome s c)).returned = c.output.isSome
  obtain ⟨o, ho⟩ : ∃ o, o = f.outcome s c := ⟨_, rfl⟩
  have hc : c = playFilter backends threads s f := rfl
  have hin : o.input = f.input := by rw [ho]; rfl
  have hbe : s.view.backend = s.backend := rfl
  rw [← ho]
  unfold filter
  unfold playFilter at hc
  rw [hin, hbe]
  cases hfin : f.input with
  | none =>
    rw [hfin] at hc
    rw [hc]
    exact ⟨rfl, rfl⟩
  | some inPlanes =>
  rw [hfin] at hc
  cases hsbe : s.backend with
  | none =>
    rw [hsbe] at hc
    rw [hc]
    exact ⟨rfl, rfl⟩
  | some be =>
  rw [hsbe] at hc
  dsimp only at hc ⊢
  have hsrc : o.srcView = f.srcView.map s.metrics := by rw [ho]; rfl
  have hprobed : (if s.view.probe.active ∧ inPlanes ≥ 1 then runProbe s.view o.srcView else s.view)
      = (if s.probe.active ∧ inPlanes ≥ 1 then s.runProbe f.srcView else s).view := by
    rw [hsrc, ← view_runProbe]
    exact (apply_ite Playback.view _ _ _).symm
  have hinv : AdaptiveInv threads
      (if s.probe.active ∧ inPlanes ≥ 1 then s.runProbe f.srcView else s).usm := by
    split
    · exact runProbe_inv h f.srcView
    · exact h
  rw [hprobed]
  generalize (if s.probe.active ∧ inPlanes ≥ 1 then s.runProbe f.srcView else s) = s₁
    at hc hinv ⊢
  have hout : o.output = f.output := by rw [ho]; rfl
  rw [hout]
  cases hfout : f.output with
  | none =>
    rw [hfout] at hc
    rw [hc]
    exact ⟨rfl, rfl⟩
  | some outPlanes =>
  rw [hfout] at hc
  dsimp only at hc ⊢
  -- the clock starts without a change to the view
  obtain ⟨s₂, hs₂⟩ : ∃ s₂, s₂ = { s₁ with usm := usmAdaptiveBegin s₁.usm f.clock } := ⟨_, rfl⟩
  have hstarted : AdaptiveInv threads s₂.usm := by
    rw [hs₂]
    exact usmAdaptiveBegin_inv hinv f.clock
  have hview : s₁.view = s₂.view := by
    rw [hs₂]
    exact (view_setUsm (usmAdaptiveBegin_amount s₁.usm f.clock)
      (by rw [usmAdaptiveBegin_pool])).symm
  rw [hview]
  rw [← hs₂] at hc
  have hproc : o.process = f.process := by rw [ho]; rfl
  have hopens : o.fallbackOpens = f.fallbackOpens := by rw [ho]; rfl
  rw [hproc, hopens]
  by_cases hok : f.process ≠ .ok
  · rw [if_pos hok] at hc
    rw [if_pos hok, hc]
    refine ⟨?_, rfl⟩
    dsimp only
    split
    · exact (view_fallback be f.fallbackOpens).symm
    · rfl
  · rw [if_neg hok] at hc
    rw [if_neg hok]
    rw [hc]
    exact view_finish hstarted outPlanes (by rw [ho]; rfl) (by rw [ho, ← hc]; rfl)
      (by rw [ho, ← hc]; rfl)

/-- **A playback is one of the filter's.** -/
theorem playRun_view (h : AdaptiveInv threads s.usm) (backends : BackendEnv)
    (frames : List (PlayFrame Pool Plane)) :
    ∃ outcomes, filterRunSys backends s.view outcomes
      = (playRun backends threads s frames).view := by
  induction frames generalizing s with
  | nil => exact ⟨[], rfl⟩
  | cons f frames ih =>
    have hinv : AdaptiveInv threads (playFilter backends threads s f).sys.usm := playFilter_inv h f
    obtain ⟨outcomes, hrun⟩ := ih hinv
    refine ⟨f.outcome s (playFilter backends threads s f) :: outcomes, ?_⟩
    show filterRunSys backends (filter backends s.view _).sys outcomes = _
    rw [(playFilter_view h f).1]
    exact hrun

end View

/-! ### Open is the filter's -/

section Open

variable {create : ℤ → ℤ → ℤ → ℤ → Option Pool} {ok : Bool}

/-- Both models of `InitUsmPool` agree when the pool is created in both or in
neither. -/
theorem initUsmPool_view (c : UsmConfig) (plane : Plane) (sys : FilterSys)
    (hcreate : ∀ n width height rows, (create n width height rows).isSome = ok)
    (hsys : sys.usmPool = false ∧ sys.usmAmountQ8 = 0) :
    (AutoUpscale.initUsmPool sys c.chroma c.usmPct ok).usmPool
        = (Adaptive.initUsmPool c create plane).pool.isSome ∧
      (AutoUpscale.initUsmPool sys c.chroma c.usmPct ok).usmAmountQ8
        = (Adaptive.initUsmPool c create plane).amountQ8 := by
  unfold AutoUpscale.initUsmPool Adaptive.initUsmPool
  dsimp only
  split
  · exact hsys
  · have hok := hcreate c.initialThreads c.width c.height c.stripeMin
    cases hc : create c.initialThreads c.width c.height c.stripeMin with
    | none =>
      rw [hc] at hok
      rw [← hok]
      exact hsys
    | some p =>
      rw [hc] at hok
      rw [← hok]
      exact ⟨rfl, rfl⟩

theorem planOpen_chroma {fmt : VideoFormat} {cfg : Config} {cores : ℤ} {ctx : ScalerCtx}
    (h : planOpen fmt cfg cores = some ctx) : ctx.chroma = fmt.chroma := by
  unfold planOpen at h
  dsimp only at h
  split at h
  · cases h
  · obtain rfl := Option.some.inj h
    rfl

/-- Open leaves the playback where it leaves the filter. -/
theorem playOpen_view {backends : BackendEnv} {fmt : VideoFormat} {cfg : Config}
    {pc : ProbeConfig} {cores : ℤ} {o : OpenOutcome} {u : UsmOptions} {plane : Plane}
    {s : Playback Pool Plane}
    (hcreate : ∀ n width height rows, (create n width height rows).isSome = o.usmPoolCreate)
    (hopen : playOpen backends fmt cfg pc cores o u create plane = some s) :
    (autoupscaleOpen backends fmt cfg pc cores o).1 = some s.view := by
  obtain ⟨sys, hsys, rfl⟩ := Option.map_eq_some_iff.mp hopen
  have hmask : sys.usmPool = (Adaptive.initUsmPool (usmConfig cfg sys.scaler cores u) create
        plane).pool.isSome ∧
      sys.usmAmountQ8 = (Adaptive.initUsmPool (usmConfig cfg sys.scaler cores u) create
        plane).amountQ8 := by
    unfold autoupscaleOpen at hsys
    dsimp only at hsys
    split at hsys
    · cases hsys
    rename_i ctx hplan
    split at hsys
    · cases hsys
    split at hsys
    · cases hsys
    split at hsys
    · cases hsys
    rename_i opened _
    obtain rfl := Option.some.inj hsys
    -- `InitProbe` keeps the mask, and `InitUsmPool` the context it was called with
    obtain ⟨s₁, hs₁⟩ : ∃ s₁ : FilterSys, s₁ =
        { scaler := ctx, backend := some opened, priv := true, usmAmountQ8 := 0
          usmPool := false, probe := ⟨false, false, false, ⟨0, 0, 0, 0, 0⟩⟩
          usmSkipSharp := false, usmSharpThreshold := 0
          backendPref := (clampConfig cfg).backend, fallbackTried := false } := ⟨_, rfl⟩
    have hscaler : (AutoUpscale.initUsmPool s₁ fmt.chroma (clampConfig cfg).usm
        o.usmPoolCreate).scaler = ctx := by
      rw [hs₁]
      unfold AutoUpscale.initUsmPool
      split
      · rfl
      · split <;> rfl
    have hview := initUsmPool_view (usmConfig cfg ctx cores u) plane s₁ hcreate
      (by rw [hs₁]; exact ⟨rfl, rfl⟩)
    rw [show (usmConfig cfg ctx cores u).chroma = fmt.chroma from planOpen_chroma hplan] at hview
    rw [← hs₁]
    set sys := AutoUpscale.initUsmPool s₁ fmt.chroma (clampConfig cfg).usm o.usmPoolCreate
    show sys.usmPool = (Adaptive.initUsmPool (usmConfig cfg sys.scaler cores u) create
        plane).pool.isSome ∧
      sys.usmAmountQ8 = (Adaptive.initUsmPool (usmConfig cfg sys.scaler cores u) create
        plane).amountQ8
    rw [hscaler]
    exact hview
  rw [hsys]
  congr 1
  unfold FilterSys.playback Playback.view
  dsimp only
  rw [← hmask.1, ← hmask.2]

/-- **From Open on, a playback is one of the filter's**, and after any frames each
of its pools is owned once. -/
theorem playback_refines {backends : BackendEnv} {fmt : VideoFormat} {cfg : Config}
    {pc : ProbeConfig} {cores : ℤ} {o : OpenOutcome} {u : UsmOptions} {plane : Plane}
    {s : Playback Pool Plane} (threads : Pool → ℤ)
    (hcreate : ∀ n width height rows, (create n width height rows).isSome = o.usmPoolCreate)
    (hopen : playOpen backends fmt cfg pc cores o u create plane = some s)
    (frames : List (PlayFrame Pool Plane)) :
    (∃ sys outcomes, (autoupscaleOpen backends fmt cfg pc cores o).1 = some sys ∧
      filterRunSys backends sys outcomes = (playRun backends threads s frames).view) ∧
      AdaptiveInv threads (playRun backends threads s frames).usm := by
  have hinv : AdaptiveInv threads s.usm := playOpen_inv hopen
  obtain ⟨outcomes, hrun⟩ := playRun_view hinv backends frames
  constructor
  · exact ⟨s.view, outcomes, playOpen_view hcreate hopen, hrun⟩
  · exact playRun_inv hinv frames

end Open

end AutoUpscale
