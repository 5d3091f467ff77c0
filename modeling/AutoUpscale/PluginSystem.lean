/-
The plug-in with its two backends in place: `src/autoupscale.c` over
`src/scaler_zimg.c` and `src/scaler_swscale.c`, through the interface of
`src/scaler.h`.

`playFilter` takes what the backend does as given; here a frame brings pictures,
and the backend in use, with the private state it was left in, says what becomes
of them (`PluginFrame.play`).  A fallback closes one backend and opens the other.

- `PluginInv.filter`: the private state is always one of the backend in use, in a
  state that backend can reach, and a live zimg pool is never broken.
- **`plugin_backends`**: no playback sees more than one fatal frame, swscale has
  none, and the fallback of zimg is never missing; once zimg is gone the backend
  stays, and without one no frame is scaled.
-/
import AutoUpscale.AdaptivePixels
import AutoUpscale.PlaybackUsm
import AutoUpscale.SwscaleBackend
import AutoUpscale.ZimgDrift

namespace AutoUpscale

open Adaptive PlaneMemory

/-! ### Backends -/

/-- `scaler_ctx_t.priv`, by the backend it belongs to. -/
inductive BackendPriv
  | zimg (p : ZimgPriv)
  | swscale (p : SwsPriv)

def BackendPriv.backend : BackendPriv → Backend
  | .zimg _ => .zimg
  | .swscale _ => .swscale

/-- The backends of a build with or without `HAVE_ZIMG`. -/
def pluginBackends (haveZimg : Bool) : BackendEnv where
  haveZimg := haveZimg
  supports
    | .zimg => zimgSupports
    | .swscale => swsSupports

/-- How an `open` of either backend turns out: the budget that zimg's detected
topology gives, whether the library versions match, the allocations. -/
structure BackendOpens where
  workerBudget : ℤ
  zimgApi : Bool
  zimgAlloc : Bool
  swsAlloc : Bool
  swsContext : Bool

/-- `scaler_backend_t.open` -/
def backendOpen (ctx : ScalerCtx) (o : BackendOpens) : Backend → Option BackendPriv
  | .zimg => (zimgOpen ctx o.workerBudget o.zimgApi o.zimgAlloc).map .zimg
  | .swscale => (swsOpen ctx o.swsAlloc o.swsContext).map .swscale

/-! ### Frames -/

/-- The plug-in between two calls. -/
structure Plugin where
  play : Playback UsmPool Memory
  priv : Option BackendPriv

/-- How the calls made for one frame turn out.  `memory` is what the backend finds,
`scaled` what it leaves. -/
structure PluginFrame where
  input : Option Picture
  output : Option Picture
  clock : Option Timespec
  memory : Memory
  zimg : ZimgOutcome
  swsLines : ℤ
  scaled : Memory
  fallback : BackendOpens
  usm : UsmPoolOutcome

/-- `scaler_backend_t.process`; without private state both backends are fatal. -/
def backendProcess (ctx : ScalerCtx) (priv : Option BackendPriv) (f : PluginFrame) :
    ProcessStatus × Option BackendPriv :=
  match priv with
  | none => (.fatal, none)
  | some (.zimg p) =>
    let r := zimgProcess ctx p f.input f.output f.zimg
    (r.status, some (.zimg r.priv))
  | some (.swscale p) =>
    let r := swsProcess ctx (some p) f.input f.output f.swsLines
    (r.status, r.priv.map .swscale)

/-- `plane[0]` of a source view. -/
def lumaView (m : Memory) (v : PictureView) : LumaView where
  pixels i := m (((v.plane 0).pixels : ℤ) + i).toNat
  pitch := (v.plane 0).pitch

namespace Plugin

variable (backends : BackendEnv) (s : Plugin) (f : PluginFrame)

def srcView : Option PictureView :=
  pictureViewInit f.input s.play.scaler.chroma (scalerSrcRegion s.play.scaler)

def dstView : Option PictureView :=
  pictureViewInit f.output s.play.scaler.chroma (scalerDstRegion s.play.scaler)

/-- The `open` of `TryBackendFallback`. -/
def fallbackOpen : Option BackendPriv :=
  (scalerPick backends backendSwscale s.play.scaler.chroma s.play.scaler.algo).bind
    (backendOpen s.play.scaler f.fallback)

/-- The frame, as the rest of the filter sees it. -/
def playFrame : PlayFrame UsmPool Memory where
  input := f.input.map Picture.planes
  srcView := (s.srcView f).map (lumaView f.memory)
  output := f.output.map Picture.planes
  clock := f.clock
  process := (backendProcess s.play.scaler s.priv f).1
  scaled := f.scaled
  fallbackOpens := (s.fallbackOpen backends f).isSome
  dstView := (s.dstView f).isSome
  env :=
    match s.dstView f with
    | some v => usmPoolEnv (v.plane 0).pixels (v.plane 0).pitch f.usm
    | none => usmPoolEnv 0 0 f.usm

/-- The private state that `TryBackendFallback` leaves of `priv`, with the backend
`be` in place. -/
def fallbackPriv (be : Backend) (priv : Option BackendPriv) : Option BackendPriv :=
  if s.play.fallbackTried then priv
  else if be.id ≠ backendZimg then priv
  else if s.play.backendPref = backendZimg then none
  else s.fallbackOpen backends f

end Plugin

/-- One Filter call: the memory of the picture it returns, the backend that was
processed with its status, and what the USM pass reports. -/
structure PluginCall where
  sys : Plugin
  output : Option Memory
  process : Option (Backend × ProcessStatus)
  usm : UsmStatus

/-- The frame was the end of its backend. -/
def PluginCall.isFatal (c : PluginCall) : Bool := c.process.any fun r => r.2 == .fatal

theorem PluginCall.isFatal_eq {c : PluginCall} {process : Option (Backend × ProcessStatus)}
    (h : c.process = process) : c.isFatal = process.any fun r => r.2 == .fatal := by
  rw [PluginCall.isFatal, h]

/-- `Filter` -/
def pluginFilter (backends : BackendEnv) (s : Plugin) (f : PluginFrame) : PluginCall :=
  let c := playFilter backends UsmPool.nThreads s.play (s.playFrame backends f)
  match f.input, s.play.backend, f.output with
  | some _, some be, some _ =>
    let r := backendProcess s.play.scaler s.priv f
    let priv := if processNeedsFallback r.1 then s.fallbackPriv backends f be r.2 else r.2
    ⟨⟨c.sys, priv⟩, c.output, some (be, r.1), c.status⟩
  | _, _, _ => ⟨⟨c.sys, s.priv⟩, c.output, none, c.status⟩

/-- The Filter calls of a playback. -/
def pluginRun (backends : BackendEnv) (s : Plugin) : List PluginFrame → List PluginCall
  | [] => []
  | f :: fs => pluginFilter backends s f :: pluginRun backends (pluginFilter backends s f).sys fs

/-- The plug-in after them. -/
def pluginAfter (backends : BackendEnv) (s : Plugin) (frames : List PluginFrame) : Plugin :=
  frames.foldl (fun s f => (pluginFilter backends s f).sys) s

/-! ### Open -/

/-- How the calls of one Open turn out. -/
structure PluginOpens where
  sysAlloc : Bool
  backend : BackendOpens
  usmAlloc : Bool
  usmScratch : ℕ

/-- `up_autoupscale_open`, when it succeeds. -/
def pluginOpen (backends : BackendEnv) (fmt : VideoFormat) (cfg : Config) (pc : ProbeConfig)
    (cores : ℤ) (o : PluginOpens) (u : UsmOptions) (m : Memory) : Option Plugin :=
  match planOpen fmt cfg cores with
  | none => none
  | some ctx =>
    let opened (be : Backend) := backendOpen ctx o.backend be
    let outcome : OpenOutcome := ⟨o.sysAlloc, fun be => (opened be).isSome, o.usmAlloc⟩
    let create n w h rows := usmPoolCreate n w h rows o.usmAlloc o.usmScratch
    (playOpen backends fmt cfg pc cores outcome u create m).map fun play =>
      ⟨play, play.backend.bind opened⟩

/-! ### A live zimg backend has not failed -/

/-- The pool is neither broken nor has it failed to start. -/
def ZimgPriv.Live (p : ZimgPriv) : Prop := p.pool.broken = false ∧ p.pool.lazyFailed = false

theorem poolConstructFrom_broken (o : StartOutcome) (k i : ℕ) (p : WorkerPool) :
    (poolConstructFrom o k i p).2.1.broken = p.broken ∧
      (poolConstructFrom o k i p).2.1.lazyFailed = p.lazyFailed := by
  have hone (i : ℕ) (p : WorkerPool) : (poolConstructOne p i o).pool.broken = p.broken ∧
      (poolConstructOne p i o).pool.lazyFailed = p.lazyFailed := by
    unfold poolConstructOne
    split_ifs <;> exact ⟨rfl, rfl⟩
  induction k generalizing i p with
  | zero => exact ⟨rfl, rfl⟩
  | succ k ih =>
    unfold poolConstructFrom
    dsimp only
    split
    · exact hone i p
    · obtain ⟨hb, hf⟩ := ih (i + 1) (poolConstructOne p i o).pool
      exact ⟨hb.trans (hone i p).1, hf.trans (hone i p).2⟩

theorem workerPoolStart_broken {p : WorkerPool} {o : StartOutcome}
    (h : (workerPoolStart p o).ok = true) : (workerPoolStart p o).pool.broken = p.broken ∧
      (workerPoolStart p o).pool.lazyFailed = p.lazyFailed := by
  have hsetup : (poolSetup p o).pool.broken = p.broken ∧
      (poolSetup p o).pool.lazyFailed = p.lazyFailed := by
    unfold poolSetup poolAlloc
    dsimp only
    split_ifs <;> exact ⟨rfl, rfl⟩
  unfold workerPoolStart at h ⊢
  dsimp only at h ⊢
  split at h
  · rename_i hfail
    exact absurd (hfail.symm.trans h) (by decide)
  rename_i hok
  rw [if_neg hok]
  split at h
  · cases h
  rename_i hbuilt
  rw [if_neg hbuilt]
  obtain ⟨hb, hf⟩ := poolConstructFrom_broken o
    (if (poolSetup p o).pool.inlineRun then 1 else (poolSetup p o).pool.nPref.toNat) 0
    (poolSetup p o).pool
  exact ⟨hb.trans hsetup.1, hf.trans hsetup.2⟩

theorem zimgEnsureLazyInit_live {p : ZimgPriv} (h : p.Live) {o : ZimgOutcome}
    (hok : (zimgEnsureLazyInit p o).1 = true) : (zimgEnsureLazyInit p o).2.Live := by
  unfold zimgEnsureLazyInit at hok ⊢
  split at hok
  · rename_i hdone
    rw [if_pos hdone]
    exact h
  rename_i hdone
  split at hok
  · cases hok
  rename_i hfailed
  rw [if_neg hdone, if_neg hfailed]
  dsimp only at hok ⊢
  set q := workerPoolConfig p.plan.nThreads true
  set start : StartOutcome := { o.start with
    prepare := (allocScratchBuffers { p with pool := q } o.allocs).1
    construct := fun i => (zimgPoolConstruct { p with pool := q } o.allocs i).1 }
  show (workerPoolEnsureStarted q start).pool.broken = false ∧
    (workerPoolEnsureStarted q start).pool.lazyFailed = false
  -- a configured pool has not been started
  have hq : workerPoolEnsureStarted q start =
      if (workerPoolStart q start).ok = false then
        ⟨false, { (workerPoolStart q start).pool with lazyFailed := true },
          (workerPoolStart q start).log⟩
      else ⟨true, { (workerPoolStart q start).pool with lazyDone := true },
        (workerPoolStart q start).log⟩ := rfl
  rw [hq] at hok ⊢
  cases hstart : (workerPoolStart q start).ok with
  | false =>
    rw [if_pos hstart] at hok
    cases hok
  | true =>
    obtain ⟨hb, hf⟩ := workerPoolStart_broken hstart
    rw [if_neg (by decide)]
    exact ⟨hb, hf⟩

theorem zimgDispatchAndWait_live {p : ZimgPriv} (h : p.Live) {o : ZimgOutcome}
    (hok : (zimgDispatchAndWait p o).status = .ok) : (zimgDispatchAndWait p o).priv.Live := by
  unfold zimgDispatchAndWait at hok ⊢
  dsimp only at hok ⊢
  have hpool : (workerPoolDispatch p.pool o.gateOk o.stop).ok = true →
      (workerPoolDispatch p.pool o.gateOk o.stop).pool = p.pool := by
    unfold workerPoolDispatch
    split_ifs
    · exact fun _ => rfl
    · exact fun _ => rfl
    · intro hd
      cases hd
  split at hok
  · cases hok
  rename_i hd
  rw [if_neg hd]
  unfold zimgCheckWorkerResults at hok ⊢
  split at hok
  · cases hok
  rename_i hrc
  rw [if_neg hrc]
  show (workerPoolDispatch p.pool o.gateOk o.stop).pool.broken = false ∧
    (workerPoolDispatch p.pool o.gateOk o.stop).pool.lazyFailed = false
  rw [hpool (by simpa using hd)]
  exact h

/-- A frame that is not fatal leaves the backend live, and one that is dropped
with both views in order has cost it a miss. -/
theorem ZimgCall.live {ctx : ScalerCtx} {p : ZimgPriv} (h : p.Live) (c : ZimgCall)
    (hstatus : (c.process ctx p).status ≠ .fatal) : (c.process ctx p).priv.Live := by
  cases zimgProcess_exit ctx p c with
  | broken hbroken _ => exact absurd (h.1.symm.trans hbroken) (by decide)
  | badViews _ _ hcall =>
    rw [hcall]
    exact h
  | drift srcView dstView _ _ hdrift hcall =>
    -- the miss that is counted is not the thirtieth
    rw [hcall, (drift_started hdrift).2] at hstatus ⊢
    unfold zimgNoteAlignmentDrift at hstatus ⊢
    dsimp only at hstatus ⊢
    split at hstatus
    · exact absurd rfl hstatus
    · rename_i hmiss
      rw [if_neg hmiss]
      exact h
  | startFailed srcView dstView _ _ _ _ hcall =>
    rw [hcall] at hstatus
    exact absurd rfl hstatus
  | dispatched srcView dstView _ _ _ hstart hcall =>
    have hprep : (zimgPrepareFirstFrameIo p ctx srcView dstView).Live := by
      unfold ZimgPriv.Live
      rw [(prepareFirstFrameIo_rest ctx p srcView dstView).1]
      exact h
    have hinit := zimgEnsureLazyInit_live hprep hstart
    rw [hcall] at hstatus ⊢
    set q := pointWorkers (zimgEnsureLazyInit (zimgPrepareFirstFrameIo p ctx srcView dstView)
      c.outcome).2 srcView dstView with hq
    have hlive : q.Live := by
      unfold ZimgPriv.Live
      rw [hq, (pointWorkers_rest _ srcView dstView).2.2]
      exact hinit
    have hfailed := (zimgDispatchAndWait_law q c.outcome).failed
    refine zimgDispatchAndWait_live hlive ?_
    split at hfailed
    · exact absurd hfailed hstatus
    · exact hfailed

/-- Every drop of a frame with both views in order is a miss, the thirtieth is
fatal, and no miss is forgotten. -/
theorem ZimgCall.misses {ctx : ScalerCtx} (p : ZimgPriv) (c : ZimgCall) :
    p.driftMisses ≤ (c.process ctx p).priv.driftMisses ∧
      ((c.process ctx p).status = .transient → zimgFrameViewsInit ctx c.src c.dst ≠ none →
        (c.process ctx p).priv.driftMisses = p.driftMisses + 1 ∧
          p.driftMisses + 1 < zimgDriftFatalMisses) := by
  have hlaw := zimgProcess_frameLaw ctx p c
  refine ⟨by rw [hlaw.misses]; exact Nat.le_add_right _ _, fun hstatus hviews => ?_⟩
  cases zimgProcess_exit ctx p c with
  | broken _ hcall => simp [hcall] at hstatus
  | badViews _ hnone _ => exact absurd hnone hviews
  | startFailed _ _ _ _ _ _ hcall => simp [hcall] at hstatus
  | drift srcView dstView hbroken hsome hdrift _ =>
    have hdrifts : c.drifts ctx p = true := by simp [ZimgCall.drifts, hbroken, hsome, hdrift]
    obtain ⟨-, -, hfatal⟩ := hlaw.drift hdrifts
    refine ⟨by rw [hlaw.misses, if_pos hdrifts], ?_⟩
    by_contra hmax
    rw [if_neg hmax, hstatus] at hfatal
    cases hfatal.1
  | dispatched srcView dstView _ _ _ _ hcall =>
    have hfailed := (zimgDispatchAndWait_law (pointWorkers (zimgEnsureLazyInit
      (zimgPrepareFirstFrameIo p ctx srcView dstView) c.outcome).2 srcView dstView)
      c.outcome).failed
    rw [← hcall, hstatus] at hfailed
    split at hfailed <;> cases hfailed

/-! ### What a Filter call does to the backends -/

section Filter

variable {backends : BackendEnv} {s : Plugin}

/-- Neither the probe nor the mask changes what the backends are about. -/
structure SameBackend (s s' : Playback UsmPool Memory) : Prop where
  scaler : s'.scaler = s.scaler
  backend : s'.backend = s.backend
  pref : s'.backendPref = s.backendPref
  tried : s'.fallbackTried = s.fallbackTried

theorem SameBackend.refl (s : Playback UsmPool Memory) : SameBackend s s := ⟨rfl, rfl, rfl, rfl⟩

theorem SameBackend.trans {s s' s'' : Playback UsmPool Memory} (h : SameBackend s s')
    (h' : SameBackend s' s'') : SameBackend s s'' :=
  ⟨h'.scaler.trans h.scaler, h'.backend.trans h.backend, h'.pref.trans h.pref,
    h'.tried.trans h.tried⟩

theorem runProbe_sameBackend (s : Playback UsmPool Memory) (v : Option LumaView) :
    SameBackend s (s.runProbe v) := by
  refine runProbe_preserves (P := SameBackend s) ?_ ?_ (.refl s) v
  · intro s' v h
    exact ⟨h.scaler, h.backend, h.pref, h.tried⟩
  · intro s' h
    obtain ⟨v, -, heq⟩ := closeWindow_eq s'
    rw [heq]
    exact ⟨h.scaler, h.backend, h.pref, h.tried⟩

theorem applyUsm_sameBackend (threads : UsmPool → ℤ) (s : Playback UsmPool Memory) (planes : ℤ)
    (f : PlayFrame UsmPool Memory) : SameBackend s (s.applyUsm threads planes f).2 := by
  unfold Playback.applyUsm
  dsimp only
  split_ifs <;> exact ⟨rfl, rfl, rfl, rfl⟩

/-- What a Filter call does: nothing to the backend, a frame that it processes or
drops, or the end of it. -/
inductive PluginMove (backends : BackendEnv) (s : Plugin) (f : PluginFrame) (c : PluginCall) :
    Prop
  | idle (hwhy : f.input = none ∨ s.play.backend = none ∨ f.output = none)
      (hprocess : c.process = none) (hout : c.output = none) (husm : c.usm = .ok)
      (hpriv : c.sys.priv = s.priv) (hsame : SameBackend s.play c.sys.play)
  | transient (be : Backend) (priv : Option BackendPriv) (hbe : s.play.backend = some be)
      (hstatus : backendProcess s.play.scaler s.priv f = (.transient, priv))
      (hprocess : c.process = some (be, .transient)) (hout : c.output = none)
      (husm : c.usm = .ok) (hpriv : c.sys.priv = priv) (hsame : SameBackend s.play c.sys.play)
  | fatal (be : Backend) (priv : Option BackendPriv) (mid : Playback UsmPool Memory)
      (hbe : s.play.backend = some be)
      (hstatus : backendProcess s.play.scaler s.priv f = (.fatal, priv))
      (hprocess : c.process = some (be, .fatal)) (hout : c.output = none) (husm : c.usm = .ok)
      (hmid : SameBackend s.play mid)
      (hsys : c.sys = ⟨mid.fallback backends be (s.fallbackOpen backends f).isSome,
        s.fallbackPriv backends f be priv⟩)
  | ok (be : Backend) (priv : Option BackendPriv) (hbe : s.play.backend = some be)
      (hstatus : backendProcess s.play.scaler s.priv f = (.ok, priv))
      (hprocess : c.process = some (be, .ok))
      (hout : c.output.isSome = true ↔ c.usm ≠ .outputUncertain)
      (hpriv : c.sys.priv = priv) (hsame : SameBackend s.play c.sys.play)

theorem pluginFilter_move (backends : BackendEnv) (s : Plugin) (f : PluginFrame) :
    PluginMove backends s f (pluginFilter backends s f) := by
  obtain ⟨c, hc⟩ : ∃ c, c = pluginFilter backends s f := ⟨_, rfl⟩
  rw [← hc]
  unfold pluginFilter playFilter at hc
  have hinput : (s.playFrame backends f).input = f.input.map Picture.planes := rfl
  have houtput : (s.playFrame backends f).output = f.output.map Picture.planes := rfl
  have hprocess : (s.playFrame backends f).process =
    (backendProcess s.play.scaler s.priv f).1 := rfl
  cases hin : f.input with
  | none =>
    rw [hinput, hin] at hc
    rw [hc]
    exact .idle (.inl hin) rfl rfl rfl rfl (.refl _)
  | some input =>
  rw [hinput, hin] at hc
  cases hbe : s.play.backend with
  | none =>
    rw [hbe] at hc
    rw [hc]
    exact .idle (.inr (.inl hbe)) rfl rfl rfl rfl (.refl _)
  | some be =>
  rw [hbe] at hc
  simp only [Option.map_some] at hc
  -- the probe leaves the backend alone
  have hprobed : SameBackend s.play (if s.play.probe.active ∧ input.planes ≥ 1 then
      s.play.runProbe (s.playFrame backends f).srcView else s.play) := by
    split
    · exact runProbe_sameBackend _ _
    · exact .refl _
  generalize (if s.play.probe.active ∧ input.planes ≥ 1 then
      s.play.runProbe (s.playFrame backends f).srcView else s.play) = s₁ at hc hprobed
  cases hout : f.output with
  | none =>
    rw [houtput, hout] at hc
    rw [hc]
    exact .idle (.inr (.inr hout)) rfl rfl rfl rfl hprobed
  | some output =>
  rw [houtput, hout] at hc
  simp only [Option.map_some] at hc
  obtain ⟨s₂, hs₂⟩ : ∃ s₂, s₂ =
    { s₁ with usm := usmAdaptiveBegin s₁.usm (s.playFrame backends f).clock } := ⟨_, rfl⟩
  have hstarted : SameBackend s.play s₂ := by
    rw [hs₂]
    exact hprobed.trans ⟨rfl, rfl, rfl, rfl⟩
  rw [← hs₂, hprocess] at hc
  have hstatus : backendProcess s.play.scaler s.priv f =
    ((backendProcess s.play.scaler s.priv f).1, (backendProcess s.play.scaler s.priv f).2) := rfl
  cases hst : (backendProcess s.play.scaler s.priv f).1 with
  | transient =>
    rw [hst] at hc hstatus
    rw [hc]
    exact .transient be _ hbe hstatus rfl rfl rfl rfl hstarted
  | fatal =>
    rw [hst] at hc hstatus
    rw [hc]
    exact .fatal be _ s₂ hbe hstatus rfl rfl rfl hstarted rfl
  | ok =>
    rw [hst] at hc hstatus
    rw [hc]
    obtain ⟨hsys, hreport⟩ := finish_sys UsmPool.nThreads s₂ output.planes
      (s.playFrame backends f)
    refine .ok be _ hbe hstatus rfl ?_ rfl (hstarted.trans ?_)
    · show (s₂.finish UsmPool.nThreads output.planes (s.playFrame backends f)).output.isSome = true ↔
        (s₂.finish UsmPool.nThreads output.planes (s.playFrame backends f)).status ≠ .outputUncertain
      rw [hreport]
      unfold Playback.finish
      dsimp only
      split
      · rename_i huncertain
        simp [huncertain]
      · rename_i hcertain
        simp [hcertain]
    · show SameBackend s₂
        (s₂.finish UsmPool.nThreads output.planes (s.playFrame backends f)).sys
      rw [hsys]
      exact applyUsm_sameBackend _ _ _ _

end Filter

/-! ### The backend in use and its state -/

/-- `priv` is a state that the backend `be`, opened for `ctx`, can be in; zimg
has not failed. -/
inductive PrivOf (ctx : ScalerCtx) (workerBudget : ℤ) : Option Backend → Option BackendPriv → Prop
  | closed : PrivOf ctx workerBudget none none
  | zimg {p : ZimgPriv} (h : ZimgReachable ctx workerBudget p) (live : p.Live)
      (misses : p.driftMisses < zimgDriftFatalMisses) :
      PrivOf ctx workerBudget (some .zimg) (some (.zimg p))
  | swscale {alloc context : Bool} {p : SwsPriv} (h : swsOpen ctx alloc context = some p)
      (calls : List SwsCall) :
      PrivOf ctx workerBudget (some .swscale) (some (.swscale (swsAfter ctx p calls).1))

/-- The plug-in between two calls. -/
structure PluginInv (ctx : ScalerCtx) (workerBudget pref : ℤ) (s : Plugin) : Prop where
  scaler : s.play.scaler = ctx
  pref : s.play.backendPref = pref
  priv : PrivOf ctx workerBudget s.play.backend s.priv
  /-- The fallback is tried once, on zimg. -/
  tried : s.play.fallbackTried = true → s.play.backend ≠ some .zimg

section Keeps

variable {ctx : ScalerCtx} {workerBudget pref : ℤ} {haveZimg : Bool} {s : Plugin}

theorem swsAfter_concat (ctx : ScalerCtx) (p : SwsPriv) (calls : List SwsCall) (c : SwsCall) :
    (swsAfter ctx p (calls ++ [c])).1 =
      (swsProcess ctx (some (swsAfter ctx p calls).1) c.src c.dst c.rc).priv.getD
        (swsAfter ctx p calls).1 := by
  induction calls generalizing p with
  | nil => rfl
  | cons d calls ih => exact ih _

theorem backendOpen_privOf {o : BackendOpens} {be : Backend} {priv : BackendPriv}
    (h : backendOpen ctx o be = some priv) : PrivOf ctx o.workerBudget (some be) (some priv) := by
  cases be with
  | zimg =>
    simp only [backendOpen, Option.map_eq_some_iff] at h
    obtain ⟨p, hp, rfl⟩ := h
    have hfresh : p.Live ∧ p.driftMisses = 0 := by
      unfold zimgOpen at hp
      split at hp
      · cases hp
      split at hp
      · cases hp
      dsimp only at hp
      split at hp
      · cases hp
      · rw [← Option.some.inj hp]
        exact ⟨⟨rfl, rfl⟩, rfl⟩
    exact .zimg (.open hp) hfresh.1 (by rw [hfresh.2]; decide)
  | swscale =>
    simp only [backendOpen, Option.map_eq_some_iff] at h
    obtain ⟨p, hp, rfl⟩ := h
    exact .swscale hp []

/-- What `process` makes of the state: fatal from zimg only, and live otherwise. -/
theorem backendProcess_privOf {be : Option Backend} {priv : Option BackendPriv}
    (h : PrivOf ctx workerBudget be priv) (hbe : be ≠ none) (f : PluginFrame) :
    ((backendProcess ctx priv f).1 = .fatal → be = some .zimg) ∧
      ((backendProcess ctx priv f).1 ≠ .fatal →
        PrivOf ctx workerBudget be (backendProcess ctx priv f).2) := by
  cases h with
  | closed => exact absurd rfl hbe
  | @zimg p hreach live misses =>
    refine ⟨fun _ => rfl, fun hstatus => ?_⟩
    have hlive := ZimgCall.live live ⟨f.input, f.output, f.zimg⟩ hstatus
    exact .zimg (.process hreach f.input f.output f.zimg) hlive
      ((zimgProcess_frameLaw ctx p ⟨f.input, f.output, f.zimg⟩).budget hlive.1 misses)
  | @swscale alloc context p hopen calls =>
    obtain ⟨fmt, hfmt, -⟩ := swsOpen_spec hopen
    obtain ⟨layout, hdesc, -⟩ := chromaToAVFmt_planes hfmt
    have hexit := swsProcess_exit (p := (swsAfter ctx p calls).1)
      (c := ⟨f.input, f.output, f.swsLines⟩) hdesc
    refine ⟨fun hfatal => absurd hfatal hexit.status.1, fun _ => ?_⟩
    obtain ⟨p', hp', -, -⟩ := hexit.frame
    have hnext := swsAfter_concat ctx p calls ⟨f.input, f.output, f.swsLines⟩
    rw [hp'] at hnext
    have hafter : (backendProcess ctx (some (.swscale (swsAfter ctx p calls).1)) f).2 =
        some (.swscale p') := by
      show (swsProcess ctx (some (swsAfter ctx p calls).1) f.input f.output f.swsLines).priv.map
        BackendPriv.swscale = _
      rw [hp']
      rfl
    rw [hafter, show p' = (swsAfter ctx p (calls ++ [⟨f.input, f.output, f.swsLines⟩])).1 from
      hnext.symm]
    exact .swscale hopen _

/-- swscale takes whatever zimg was opened for. -/
theorem scalerPick_fallback {p : ZimgPriv} (h : ZimgReachable ctx workerBudget p)
    (haveZimg : Bool) (algo : ℤ) :
    scalerPick (pluginBackends haveZimg) backendSwscale ctx.chroma algo = some .swscale := by
  have hzimg : zimgSupports ctx.chroma algo = true := by
    unfold zimgSupports
    rw [(zimgReachable_inv h).chroma]
    rfl
  have hsws : (pluginBackends haveZimg).supports .swscale ctx.chroma algo = true := by
    simp only [pluginBackends, swsSupports_of_zimg hzimg algo]
  simp only [scalerPick, scalerPickWith, pickSwscaleIfOk]
  rw [if_neg (by decide), if_pos trivial, if_pos hsws]

/-- What a fatal frame leaves in place of zimg. -/
def afterFatal (ctx : ScalerCtx) (pref : ℤ) (f : PluginFrame) : Option BackendPriv :=
  if pref = backendZimg then none else backendOpen ctx f.fallback .swscale

theorem afterFatal_privOf (ctx : ScalerCtx) (workerBudget pref : ℤ) (f : PluginFrame) :
    PrivOf ctx workerBudget ((afterFatal ctx pref f).map fun _ => .swscale)
      (afterFatal ctx pref f) := by
  unfold afterFatal
  split
  · exact .closed
  · cases hopen : swsOpen ctx f.fallback.swsAlloc f.fallback.swsContext with
    | none =>
      rw [show backendOpen ctx f.fallback .swscale = none from by
        simp only [backendOpen, hopen, Option.map_none]]
      exact .closed
    | some p =>
      rw [show backendOpen ctx f.fallback .swscale = some (.swscale p) from by
        simp only [backendOpen, hopen, Option.map_some]]
      exact .swscale hopen []

/-- `TryBackendFallback` after a fatal frame of zimg. -/
theorem PluginInv.fallback (h : PluginInv ctx workerBudget pref s) (haveZimg : Bool) {p : ZimgPriv}
    (hreach : ZimgReachable ctx workerBudget p) (hbe : s.play.backend = some .zimg)
    {mid : Playback UsmPool Memory} (hmid : SameBackend s.play mid) (f : PluginFrame)
    (priv : Option BackendPriv) :
    s.fallbackPriv (pluginBackends haveZimg) f .zimg priv = afterFatal ctx pref f ∧
      (mid.fallback (pluginBackends haveZimg) .zimg
        (s.fallbackOpen (pluginBackends haveZimg) f).isSome).backend =
          (afterFatal ctx pref f).map (fun _ => .swscale) ∧
      (mid.fallback (pluginBackends haveZimg) .zimg
        (s.fallbackOpen (pluginBackends haveZimg) f).isSome).fallbackTried = true := by
  have htried : s.play.fallbackTried = false := by
    by_contra ht
    exact h.tried (by simpa using ht) hbe
  have hopen : s.fallbackOpen (pluginBackends haveZimg) f =
      backendOpen ctx f.fallback .swscale := by
    unfold Plugin.fallbackOpen
    rw [h.scaler, scalerPick_fallback hreach, Option.bind_some]
  have hview : mid.view.fallbackTried = false ∧ mid.view.backendPref = pref ∧
      mid.view.scaler = ctx :=
    ⟨hmid.tried.trans htried, hmid.pref.trans h.pref, hmid.scaler.trans h.scaler⟩
  obtain ⟨htried', hpref', hscaler'⟩ := hview
  unfold Plugin.fallbackPriv Playback.fallback tryBackendFallback retireBackend afterFatal
  rw [htried, hopen, h.pref]
  simp only [htried', hpref', hscaler', scalerPick_fallback hreach]
  by_cases hpref : pref = backendZimg
  · simp [hpref, Backend.id]
  · cases hsws : backendOpen ctx f.fallback .swscale <;> simp [hpref, Backend.id]

/-- **A Filter call keeps the backend and its state together.** -/
theorem PluginInv.filter (h : PluginInv ctx workerBudget pref s) (haveZimg : Bool)
    (f : PluginFrame) :
    let c := pluginFilter (pluginBackends haveZimg) s f
    PluginInv ctx workerBudget pref c.sys ∧
      (c.isFatal = false → c.sys.play.backend = s.play.backend) ∧
      (c.isFatal = true → s.play.backend = some .zimg ∧ c.sys.priv = afterFatal ctx pref f ∧
        c.sys.play.backend = (afterFatal ctx pref f).map fun _ => .swscale) := by
  intro c
  -- what a call does that leaves the backend in use
  have hkeep (priv : Option BackendPriv) (hpriv : c.sys.priv = priv)
      (hsame : SameBackend s.play c.sys.play) (hof : PrivOf ctx workerBudget s.play.backend priv)
      (hno : c.isFatal = false) : PluginInv ctx workerBudget pref c.sys ∧
        (c.isFatal = false → c.sys.play.backend = s.play.backend) ∧
        (c.isFatal = true → s.play.backend = some .zimg ∧ c.sys.priv = afterFatal ctx pref f ∧
          c.sys.play.backend = (afterFatal ctx pref f).map fun _ => .swscale) := by
    refine ⟨⟨hsame.scaler.trans h.scaler, hsame.pref.trans h.pref, ?_, fun ht => ?_⟩,
      fun _ => hsame.backend, fun hyes => absurd (hno.symm.trans hyes) (by decide)⟩
    · rw [hsame.backend, hpriv]
      exact hof
    · rw [hsame.backend]
      exact h.tried (hsame.tried ▸ ht)
  cases pluginFilter_move (pluginBackends haveZimg) s f with
  | idle _ hprocess _ _ hpriv hsame =>
    exact hkeep _ hpriv hsame h.priv (PluginCall.isFatal_eq hprocess)
  | transient be priv hbe hstatus hprocess _ _ hpriv hsame =>
    obtain ⟨-, hof⟩ := backendProcess_privOf h.priv (by simp [hbe]) f
    rw [← h.scaler, hstatus] at hof
    exact hkeep priv hpriv hsame (h.scaler ▸ hof (by simp)) (PluginCall.isFatal_eq hprocess)
  | ok be priv hbe hstatus hprocess _ hpriv hsame =>
    obtain ⟨-, hof⟩ := backendProcess_privOf h.priv (by simp [hbe]) f
    rw [← h.scaler, hstatus] at hof
    exact hkeep priv hpriv hsame (h.scaler ▸ hof (by simp)) (PluginCall.isFatal_eq hprocess)
  | fatal be priv mid hbe hstatus hprocess _ _ hmid hsys =>
    obtain ⟨hzimg, -⟩ := backendProcess_privOf h.priv (by simp [hbe]) f
    rw [← h.scaler, hstatus] at hzimg
    have hbez : s.play.backend = some .zimg := hzimg rfl
    obtain rfl : be = .zimg := Option.some.inj (hbe.symm.trans hbez)
    obtain ⟨p, hreach⟩ : ∃ p, ZimgReachable ctx workerBudget p := by
      have hpriv := h.priv
      generalize s.priv = state at hpriv
      rw [hbez] at hpriv
      cases hpriv with
      | zimg hreach _ _ => exact ⟨_, hreach⟩
    obtain ⟨hpriv, hback, htried⟩ := h.fallback haveZimg hreach hbez hmid f priv
    have hfatal : c.isFatal = true := PluginCall.isFatal_eq hprocess
    have hcs : c.sys = ⟨_, _⟩ := hsys
    rw [hcs]
    refine ⟨⟨hmid.scaler.trans h.scaler, hmid.pref.trans h.pref, ?_, fun _ => ?_⟩,
      fun hno => absurd (hno.symm.trans hfatal) (by decide), fun _ => ⟨hbez, hpriv, hback⟩⟩
    · show PrivOf ctx workerBudget (Playback.fallback _ _ _ _).backend (s.fallbackPriv _ _ _ _)
      rw [hback, hpriv]
      exact afterFatal_privOf ctx workerBudget pref f
    · show (Playback.fallback _ _ _ _).backend ≠ some .zimg
      rw [hback]
      cases afterFatal ctx pref f <;> simp

theorem PluginInv.after (h : PluginInv ctx workerBudget pref s) (haveZimg : Bool)
    (frames : List PluginFrame) :
    PluginInv ctx workerBudget pref (pluginAfter (pluginBackends haveZimg) s frames) := by
  induction frames generalizing s with
  | nil => exact h
  | cons f frames ih => exact ih (h.filter haveZimg f).1

/-- The k-th call works on the state the first k calls left. -/
theorem pluginRun_getElem (backends : BackendEnv) (s : Plugin) (frames : List PluginFrame)
    (k : ℕ) : (pluginRun backends s frames)[k]? =
      (frames[k]?).map fun f => pluginFilter backends (pluginAfter backends s (frames.take k)) f := by
  induction frames generalizing s k with
  | nil => rfl
  | cons f frames ih =>
    cases k with
    | zero => rfl
    | succ k => exact ih (pluginFilter backends s f).sys k

/-- Without a backend a call scales nothing. -/
theorem pluginFilter_unscaled (backends : BackendEnv) {s : Plugin} (h : s.play.backend = none)
    (f : PluginFrame) :
    (pluginFilter backends s f).process = none ∧ (pluginFilter backends s f).output = none := by
  cases pluginFilter_move backends s f with
  | idle _ hprocess hout _ _ _ => exact ⟨hprocess, hout⟩
  | transient _ _ hbe | fatal _ _ _ hbe | ok _ _ hbe => exact absurd (h.symm.trans hbe) (by simp)

/-- Once zimg is gone, what took its place stays: only zimg has fatal frames. -/
theorem PluginInv.backend_stays (h : PluginInv ctx workerBudget pref s) (haveZimg : Bool)
    (hgone : s.play.backend ≠ some .zimg) (frames : List PluginFrame) :
    (pluginAfter (pluginBackends haveZimg) s frames).play.backend = s.play.backend := by
  induction frames generalizing s with
  | nil => rfl
  | cons f frames ih =>
    obtain ⟨hinv, hkeep, hfatal⟩ := h.filter haveZimg f
    have hsame := hkeep (Bool.eq_false_iff.mpr fun hyes => hgone (hfatal hyes).1)
    exact (ih hinv (hsame ▸ hgone)).trans hsame

/-- From the frame on at which zimg is gone, in a run of frames. -/
theorem PluginInv.backend_retired (h : PluginInv ctx workerBudget pref s) (haveZimg : Bool)
    {frames : List PluginFrame} {k j : ℕ} (hkj : k ≤ j)
    (hgone : (pluginAfter (pluginBackends haveZimg) s (frames.take k)).play.backend ≠ some .zimg) :
    (pluginAfter (pluginBackends haveZimg) s (frames.take j)).play.backend =
      (pluginAfter (pluginBackends haveZimg) s (frames.take k)).play.backend := by
  obtain ⟨i, rfl⟩ := Nat.exists_eq_add_of_le hkj
  have hafter := h.after haveZimg (frames.take k)
  rw [List.take_add]
  unfold pluginAfter at hafter hgone ⊢
  rw [List.foldl_append]
  exact hafter.backend_stays haveZimg hgone _

/-- One frame at most is fatal, and none once zimg is gone. -/
theorem PluginInv.countP_fatal (h : PluginInv ctx workerBudget pref s) (haveZimg : Bool)
    (frames : List PluginFrame) :
    (pluginRun (pluginBackends haveZimg) s frames).countP PluginCall.isFatal ≤
      if s.play.backend = some .zimg then 1 else 0 := by
  induction frames generalizing s with
  | nil => exact Nat.zero_le _
  | cons f frames ih =>
    obtain ⟨hinv, hkept, hfatal⟩ := h.filter haveZimg f
    have hrest := ih hinv
    rw [pluginRun, List.countP_cons]
    cases hf : (pluginFilter (pluginBackends haveZimg) s f).isFatal with
    | false =>
      rw [hkept hf] at hrest
      simpa using hrest
    | true =>
      obtain ⟨hzimg, -, hback⟩ := hfatal hf
      rw [hback] at hrest
      have hnone : ((afterFatal ctx pref f).map fun _ => Backend.swscale) ≠ some .zimg := by
        cases afterFatal ctx pref f <;> simp
      rw [if_neg hnone] at hrest
      rw [if_pos hzimg, if_pos rfl]
      omega

end Keeps

/-! ### Open -/

section Open

variable {fmt : VideoFormat} {cfg : Config} {pc : ProbeConfig} {cores : ℤ} {haveZimg : Bool}

/-- What Open leaves of the backends. -/
theorem autoupscaleOpen_backend {env : BackendEnv} {o : OpenOutcome} {sys : FilterSys}
    (hopen : (autoupscaleOpen env fmt cfg pc cores o).1 = some sys) :
    ∃ ctx be, planOpen fmt cfg cores = some ctx ∧ sys.scaler = ctx ∧ sys.backend = some be ∧
      o.opens be = true ∧ sys.backendPref = (clampConfig cfg).backend ∧
      sys.fallbackTried = false := by
  have hinit : ∀ (s : FilterSys) chroma pct ok pc,
      let s' := initProbe (AutoUpscale.initUsmPool s chroma pct ok) pc chroma pct
      s'.scaler = s.scaler ∧ s'.backend = s.backend ∧ s'.backendPref = s.backendPref ∧
        s'.fallbackTried = s.fallbackTried := by
    intro s chroma pct ok pc
    unfold AutoUpscale.initUsmPool initProbe
    split
    · exact ⟨rfl, rfl, rfl, rfl⟩
    · split <;> exact ⟨rfl, rfl, rfl, rfl⟩
  -- whichever is picked, and whether or not it is the fallback, it has opened
  have hopened : ∀ pref chroma algo be be', (openScalerOrFallback env pref chroma algo be o.opens).1 =
      some be' → o.opens be' = true := by
    intro pref chroma algo be be' h
    unfold openScalerOrFallback scalerOpenWithFallback at h
    dsimp only at h
    split at h
    · rename_i hbe
      rwa [← Option.some.inj h]
    split at h
    · cases h
    split at h
    · cases h
    split at h
    · rename_i hf
      rwa [← Option.some.inj h]
    · cases h
  unfold autoupscaleOpen at hopen
  dsimp only at hopen
  split at hopen
  · cases hopen
  rename_i ctx hplan
  split at hopen
  · cases hopen
  split at hopen
  · cases hopen
  split at hopen
  · cases hopen
  rename_i opened hpicked
  obtain rfl := Option.some.inj hopen
  obtain ⟨hscaler, hbackend, hpref, htried⟩ := hinit _ _ _ _ _
  exact ⟨ctx, opened, hplan, hscaler, hbackend, hopened _ _ _ _ _ hpicked, hpref, htried⟩

theorem pluginOpen_priv {backends : BackendEnv} {o : PluginOpens} {u : UsmOptions} {m : Memory}
    {s : Plugin} {ctx : ScalerCtx} (hplan : planOpen fmt cfg cores = some ctx)
    (hopen : pluginOpen backends fmt cfg pc cores o u m = some s) :
    s.priv = s.play.backend.bind (backendOpen ctx o.backend) := by
  unfold pluginOpen at hopen
  rw [hplan] at hopen
  obtain ⟨play, -, rfl⟩ := Option.map_eq_some_iff.mp hopen
  rfl

/-- Open leaves a backend, and its private state with it. -/
theorem pluginOpen_inv {o : PluginOpens} {u : UsmOptions} {m : Memory} {s : Plugin}
    (hopen : pluginOpen (pluginBackends haveZimg) fmt cfg pc cores o u m = some s) :
    ∃ ctx, planOpen fmt cfg cores = some ctx ∧
      PluginInv ctx o.backend.workerBudget (clampConfig cfg).backend s ∧
      s.play.backend ≠ none := by
  unfold pluginOpen at hopen
  split at hopen
  · cases hopen
  rename_i ctx hplan
  obtain ⟨play, hplay, rfl⟩ := Option.map_eq_some_iff.mp hopen
  obtain ⟨sys, hsys, rfl⟩ := Option.map_eq_some_iff.mp hplay
  obtain ⟨ctx', be, hplan', hscaler, hbe, hopens, hpref, htried⟩ := autoupscaleOpen_backend hsys
  obtain rfl := Option.some.inj (hplan.symm.trans hplan')
  obtain ⟨priv, hpriv⟩ := Option.isSome_iff_exists.mp hopens
  refine ⟨ctx, hplan, ⟨hscaler, hpref, ?_, fun ht => ?_⟩, ?_⟩
  · show PrivOf ctx o.backend.workerBudget sys.backend
      (sys.backend.bind fun be => backendOpen ctx o.backend be)
    have hstate : backendOpen ctx o.backend be = some priv := hpriv
    rw [hbe, Option.bind_some, hstate]
    exact backendOpen_privOf hstate
  · exact absurd (htried.symm.trans ht) (by decide)
  · show sys.backend ≠ none
    rw [hbe]
    simp

end Open

/-! ### The backends of a playback -/

/-- What a playback shows of its backends, for a context `ctx` and the preference
`pref`. -/
structure BackendLaw (ctx : ScalerCtx) (workerBudget pref : ℤ) (backends : BackendEnv)
    (s : Plugin) (frames : List PluginFrame) : Prop where
  /-- After any frames the private state is one of the backend in use. -/
  priv : ∀ k, PrivOf ctx workerBudget (pluginAfter backends s (frames.take k)).play.backend
    (pluginAfter backends s (frames.take k)).priv
  once : (pluginRun backends s frames).countP PluginCall.isFatal ≤ 1
  /-- A fatal frame is one of zimg's; swscale takes over unless zimg was asked for,
  whenever it can be opened. -/
  fatal : ∀ k f c, frames[k]? = some f → (pluginRun backends s frames)[k]? = some c →
    c.isFatal = true →
    (pluginAfter backends s (frames.take k)).play.backend = some .zimg ∧ c.output = none ∧
      c.sys.priv = afterFatal ctx pref f ∧
      c.sys.play.backend = (afterFatal ctx pref f).map fun _ => .swscale
  kept : ∀ k c, (pluginRun backends s frames)[k]? = some c → c.isFatal = false →
    c.sys.play.backend = (pluginAfter backends s (frames.take k)).play.backend
  /-- Zimg does not come back, and what took its place stays. -/
  retired : ∀ k, (pluginAfter backends s (frames.take k)).play.backend ≠ some .zimg → ∀ j, k ≤ j →
    (pluginAfter backends s (frames.take j)).play.backend =
      (pluginAfter backends s (frames.take k)).play.backend
  /-- Without a backend no later frame is scaled. -/
  unscaled : ∀ k, (pluginAfter backends s (frames.take k)).play.backend = none → ∀ j c, k ≤ j →
    (pluginRun backends s frames)[j]? = some c → c.process = none ∧ c.output = none

/-- **The backends of a playback.**

From Open on, whatever the pictures, the pthread calls, libzimg, libswscale and the
allocations do. -/
theorem plugin_backends {haveZimg : Bool} {fmt : VideoFormat} {cfg : Config} {pc : ProbeConfig}
    {cores : ℤ} {o : PluginOpens} {u : UsmOptions} {m : Memory} {s : Plugin}
    (hopen : pluginOpen (pluginBackends haveZimg) fmt cfg pc cores o u m = some s)
    (frames : List PluginFrame) :
    ∃ ctx, planOpen fmt cfg cores = some ctx ∧ s.play.backend ≠ none ∧
      BackendLaw ctx o.backend.workerBudget (clampConfig cfg).backend (pluginBackends haveZimg)
        s frames := by
  obtain ⟨ctx, hplan, hinv, hbe⟩ := pluginOpen_inv hopen
  refine ⟨ctx, hplan, hbe, fun k => (hinv.after haveZimg (frames.take k)).priv, ?_,
    fun k f c hf hc hfatal => ?_, fun k c hc hfatal => ?_,
    fun k hgone j hkj => hinv.backend_retired haveZimg hkj hgone, fun k hnone j c hkj hc => ?_⟩
  · refine (hinv.countP_fatal haveZimg frames).trans ?_
    split <;> decide
  · rw [pluginRun_getElem, hf, Option.map_some, Option.some.injEq] at hc
    have hafter := hinv.after haveZimg (frames.take k)
    obtain ⟨-, -, hend⟩ := hafter.filter haveZimg f
    rw [hc] at hend
    obtain ⟨hzimg, hpriv, hback⟩ := hend hfatal
    refine ⟨hzimg, ?_, hpriv, hback⟩
    have hmove := pluginFilter_move (pluginBackends haveZimg)
      (pluginAfter (pluginBackends haveZimg) s (frames.take k)) f
    rw [hc] at hmove
    unfold PluginCall.isFatal at hfatal
    -- only a frame that worked puts out a picture
    cases hmove with
    | idle _ _ hout _ _ _ => exact hout
    | transient _ _ _ _ _ hout _ _ _ => exact hout
    | fatal _ _ _ _ _ _ hout _ _ _ => exact hout
    | ok _ _ _ _ hprocess _ _ _ =>
      rw [hprocess] at hfatal
      simp at hfatal
  · rw [pluginRun_getElem] at hc
    obtain ⟨f, -, rfl⟩ := Option.map_eq_some_iff.mp hc
    exact ((hinv.after haveZimg (frames.take k)).filter haveZimg f).2.1 hfatal
  · rw [pluginRun_getElem] at hc
    obtain ⟨f, -, rfl⟩ := Option.map_eq_some_iff.mp hc
    have hgone : (pluginAfter (pluginBackends haveZimg) s (frames.take k)).play.backend ≠
        some .zimg := by simp [hnone]
    exact pluginFilter_unscaled _ ((hinv.backend_retired haveZimg hkj hgone).trans hnone) f

/-- A planar 4:2:0 picture whose planes are a megabyte apart. -/
def streamPicture (base w h : ℕ) : Picture :=
  { chroma := fourcc 'I' '4' '2' '0', width := w, height := h, visibleWidth := w
    visibleHeight := h, planes := 3
    p := fun i => ⟨some (base + i * 2 ^ 20), w, h, 1⟩ }

/-- A 320x240 picture scaled to 960x720 by a start whose gate cannot be
initialised; swscale opens, and scales what follows. -/
def unstartedFrame : PluginFrame where
  input := some (streamPicture (2 ^ 22) 320 240)
  output := some (streamPicture (2 ^ 23) 960 720)
  clock := some ⟨1, 0⟩
  memory _ := 7
  zimg := { smoothOutcome with start := { smoothOutcome.start with gateInit := false } }
  swsLines := 720
  scaled _ := 7
  fallback := ⟨8, true, true, true, true⟩
  usm := halfStarted

def streamFmt : VideoFormat := ⟨fourcc 'I' '4' '2' '0', 320, 240, 320, 240, 0, 0⟩

def streamCfg : Config := ⟨0, 2, 720, 100, 0, 0, 0, 1, 1, 0⟩

def streamOpens : PluginOpens := ⟨true, ⟨8, true, true, true, true⟩, true, 4096⟩

/-- The first frame is the end of zimg, and the second comes from swscale. -/
theorem plugin_backends_unstarted :
    ∃ s, pluginOpen (pluginBackends true) streamFmt streamCfg ⟨3500, 1⟩ 8 streamOpens ⟨8, 1⟩
        (fun _ => 7) = some s ∧
      (pluginRun (pluginBackends true) s [unstartedFrame, unstartedFrame]).map
        PluginCall.process = [some (.zimg, .fatal), some (.swscale, .ok)] ∧
      ∃ ctx, planOpen streamFmt streamCfg 8 = some ctx ∧ s.play.backend ≠ none ∧
        BackendLaw ctx 8 0 (pluginBackends true) s [unstartedFrame, unstartedFrame] := by
  have hrun : (pluginOpen (pluginBackends true) streamFmt streamCfg ⟨3500, 1⟩ 8 streamOpens
      ⟨8, 1⟩ (fun _ => 7)).map (fun s =>
        (pluginRun (pluginBackends true) s [unstartedFrame, unstartedFrame]).map
          PluginCall.process) = some [some (.zimg, .fatal), some (.swscale, .ok)] := by
    decide +kernel
  obtain ⟨s, hs, hprocess⟩ := Option.map_eq_some_iff.mp hrun
  exact ⟨s, hs, hprocess, plugin_backends hs _⟩

end AutoUpscale
