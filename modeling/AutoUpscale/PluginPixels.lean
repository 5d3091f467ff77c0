/-
What a picture holds when it comes out of the plug-in.

A picture that comes out of `Filter` is the one that the backend has left, or that one
sharpened once.  On zimg every byte of it comes from the one cell that covers it, so
the whole picture is known: the output of libzimg, cell by cell, on the input
picture, with the mask of the reference over its luma plane.

- `applyUsm_pixels`: the mask at work on the backend's picture, over the pools.
- `MaskInv.filter`: the pools keep their contract over a playback.
- **`plugin_pixels`**: the picture, from the memory before the call.
-/
import AutoUpscale.PluginSystem
import AutoUpscale.ZimgCoverage

namespace AutoUpscale

open Adaptive PlaneMemory

/-! ### The mask over the backend's picture -/

section Mask

variable {Pool Plane : Type*} {threads : Pool → ℤ} {Good : Pool → Prop}
  {usm : ℤ → Plane → Plane → Prop} {c : UsmConfig} {amountQ8 : ℤ}

/-- The mask is in effect on pictures of `planes` planes. -/
def Playback.masks (s : Playback Pool Plane) (planes : ℤ) : Bool :=
  decide (0 < s.usm.amountQ8) && s.usm.pool.isSome && decide (1 ≤ planes) && !s.usmSkipSharp

/-- The pools keep their contract, and the amount is the one of Open until the mask
goes. -/
structure MaskInv (threads : Pool → ℤ) (Good : Pool → Prop) (c : UsmConfig) (amountQ8 : ℤ)
    (s : UsmSystem Pool Plane) : Prop where
  pools : AdaptiveInv threads s
  kept : Kept Good c s
  amount : s.amountQ8 = amountQ8 ∨ s.amountQ8 = 0

theorem MaskInv.disable {s : UsmSystem Pool Plane} (h : MaskInv threads Good c amountQ8 s) :
    MaskInv threads Good c amountQ8 (Adaptive.disableUsm s) :=
  ⟨disableUsm_inv h.pools.owns, h.kept.disable, .inr (disableUsm_amount s)⟩

theorem MaskInv.begin {s : UsmSystem Pool Plane} (h : MaskInv threads Good c amountQ8 s)
    (clock : Option Timespec) :
    MaskInv threads Good c amountQ8 (usmAdaptiveBegin s clock) :=
  ⟨usmAdaptiveBegin_inv h.pools clock, h.kept.begin clock, by
    rw [usmAdaptiveBegin_amount]
    exact h.amount⟩

theorem MaskInv.setPlane {s : UsmSystem Pool Plane} (h : MaskInv threads Good c amountQ8 s)
    (plane : Plane) : MaskInv threads Good c amountQ8 { s with plane := plane } :=
  ⟨h.pools.flags s.adaptive.retained s.adaptive.framePending s.adaptive.frameTimed
    s.adaptive.frameStart plane, ⟨h.kept.geometry, h.kept.pools⟩, h.amount⟩

theorem disableUsm_plane (s : UsmSystem Pool Plane) : (Adaptive.disableUsm s).plane = s.plane := by
  have hdestroy : ∀ (s : UsmSystem Pool Plane) (k : Option ℕ), (s.destroyPool k).plane = s.plane := by
    intro s k
    unfold UsmSystem.destroyPool
    split
    · rfl
    · split <;> rfl
  show ((usmAdaptiveStop { s with amountQ8 := 0 }).destroyPool _).plane = s.plane
  rw [hdestroy]
  show (UsmSystem.destroyPool { s with amountQ8 := 0 } s.adaptive.trial).plane = s.plane
  rw [hdestroy]

/-- `ApplyUsmIfEnabled` with the mask on. -/
theorem applyUsmIfEnabled_pixels {s : UsmSystem Pool Plane} (h : MaskInv threads Good c amountQ8 s)
    {env : FrameEnv Pool Plane} (henv : StatusContract Good usm c env)
    (hon : ¬ (s.amountQ8 ≤ 0 ∨ s.pool = none)) :
    let out := Adaptive.applyUsmIfEnabled threads s env
    MaskInv threads Good c amountQ8 out.2 ∧
      (out.1 = .ok → usm amountQ8 s.plane out.2.plane ∧ 0 < out.2.amountQ8 ∧
        out.2.pool.isSome = true) ∧
      (out.1 = .failedUnchanged → out.2.plane = s.plane) := by
  intro out
  have hsteps : (Step.frame s.plane env).Keeps Good c := henv.toKeepsPools
  have hkept : Kept Good c out.2 := h.kept.step hsteps
  have hinv : AdaptiveInv threads out.2 := applyUsmIfEnabled_inv h.pools env
  have hpixels := usmAdaptiveApply_pixels h.pools h.kept henv s.amountQ8
  have hamount := usmAdaptiveApply_amount (s := s) threads env s.amountQ8
  cases applyUsmIfEnabled_exit threads s env with
  | off hoff _ => exact absurd hoff hon
  | kept hpos hpool _ hout =>
    -- the filter had not been disabled, so its amount is the configured one
    have hlaw := usmAdaptiveApply_callLaw h.pools hpool env s.amountQ8
    have hamount' : s.amountQ8 = amountQ8 := h.amount.resolve_right (by omega)
    have hout' : out = usmAdaptiveApply threads s env s.amountQ8 := hout
    refine ⟨⟨hinv, hkept, ?_⟩, fun hok => ⟨?_, ?_, ?_⟩, fun hfail => ?_⟩
    · rw [hout', hamount]
      exact h.amount
    · rw [← hamount', hout']
      exact hpixels.ok (hout' ▸ hok)
    · rw [hout', hamount]
      exact hpos
    · rw [hout', Option.isSome_iff_ne_none]
      exact hlaw.pool
    · rw [hout']
      exact hpixels.unchanged (hout' ▸ hfail)
  | disabled _ _ hfail _ hout =>
    -- disabling writes no pixel
    have hout' : out = ((usmAdaptiveApply threads s env s.amountQ8).1,
      Adaptive.disableUsm (usmAdaptiveApply threads s env s.amountQ8).2) := hout
    have hstatus : out.1 = (usmAdaptiveApply threads s env s.amountQ8).1 := by rw [hout']
    refine ⟨⟨hinv, hkept, .inr ?_⟩, fun hok => absurd (hstatus ▸ hok) hfail, fun hunchanged => ?_⟩
    · rw [hout']
      exact disableUsm_amount _
    · rw [hout', disableUsm_plane]
      exact hpixels.unchanged (hstatus ▸ hunchanged)

/-- **The mask at work on the backend's picture.**

It is in effect on the picture exactly when it still is after a call that worked. -/
theorem applyUsm_pixels {s : Playback Pool Plane} (h : MaskInv threads Good c amountQ8 s.usm)
    (planes : ℤ) {f : PlayFrame Pool Plane} (henv : StatusContract Good usm c f.env)
    (hview : f.dstView = true) :
    let r := s.applyUsm threads planes f
    MaskInv threads Good c amountQ8 r.2.usm ∧
      (r.1 = .ok → if r.2.masks planes then usm amountQ8 f.scaled r.2.usm.plane
        else r.2.usm.plane = f.scaled) ∧
      (r.1 = .failedUnchanged → r.2.usm.plane = f.scaled) := by
  intro r
  have hr : r = s.applyUsm threads planes f := rfl
  have hplane := h.setPlane f.scaled
  unfold Playback.applyUsm at hr
  dsimp only at hr
  split at hr
  · -- any of the four guards that skip the pass also takes the mask off
    rename_i hoff
    rw [hr]
    have hmasks : ({ s with usm := { s.usm with plane := f.scaled } } :
        Playback Pool Plane).masks planes = false := by
      unfold Playback.masks
      rcases hoff with hoff | hoff | hoff | hoff
      · simp [hoff]
      · simp [hoff]
      · have : ¬ 1 ≤ planes := by omega
        simp [this]
      · simp [hoff]
    refine ⟨hplane, fun _ => ?_, fun _ => rfl⟩
    rw [hmasks]
    exact rfl
  rename_i hon
  rw [if_neg (by simp [hview])] at hr
  obtain ⟨hinv, hok, hfail⟩ := applyUsmIfEnabled_pixels hplane henv (fun hor =>
    hon (hor.imp_right .inl))
  rw [hr]
  refine ⟨hinv, fun hstatus => ?_, hfail⟩
  obtain ⟨husm, hpos, hpool⟩ := hok hstatus
  have hmasks : Playback.masks { s with
      usm := (Adaptive.applyUsmIfEnabled threads { s.usm with plane := f.scaled } f.env).2 }
      planes = true := by
    have hplanes : 1 ≤ planes := by
      by_contra hno
      exact hon (.inr (.inr (.inl (by omega))))
    have hskip : s.usmSkipSharp = false := by
      by_contra hskip
      exact hon (.inr (.inr (.inr (by simpa using hskip))))
    simp [Playback.masks, hpos, hpool, hplanes, hskip]
  rw [hmasks]
  exact husm

end Mask

/-! ### The pools over a playback -/

section Playback

variable {Pool Plane : Type*} {threads : Pool → ℤ} {backends : BackendEnv} {Good : Pool → Prop}
  {usm : ℤ → Plane → Plane → Prop} {c : UsmConfig} {amountQ8 : ℤ} {s : Playback Pool Plane}

/-- A picture comes out of a call that finishes it, in a state that the probe and the
clock have left as they leave any. -/
theorem playFilter_finish {P : Playback Pool Plane → Prop}
    (probe : ∀ s v, P s → P (s.runProbe v))
    (start : ∀ s clock, P s → P { s with usm := usmAdaptiveBegin s.usm clock })
    (hs : P s) {f : PlayFrame Pool Plane} {planes : ℤ} (houtput : f.output = some planes)
    {out : Plane} (hout : (playFilter backends threads s f).output = some out) :
    ∃ s', P s' ∧ playFilter backends threads s f = s'.finish threads planes f := by
  unfold playFilter at hout ⊢
  cases hinput : f.input with
  | none =>
    rw [hinput] at hout
    cases hout
  | some inPlanes =>
  rw [hinput] at hout
  cases hbe : s.backend with
  | none =>
    rw [hbe] at hout
    cases hout
  | some be =>
  rw [hbe, houtput] at hout
  rw [houtput]
  dsimp only at hout ⊢
  have hprobed : P (if s.probe.active ∧ inPlanes ≥ 1 then s.runProbe f.srcView else s) := by
    split
    · exact probe s f.srcView hs
    · exact hs
  split at hout
  · cases hout
  · rename_i hok
    rw [if_neg hok]
    exact ⟨_, start _ f.clock hprobed, rfl⟩

theorem MaskInv.runProbe {s : Playback Pool Plane} (h : MaskInv threads Good c amountQ8 s.usm)
    (v : Option LumaView) : MaskInv threads Good c amountQ8 (s.runProbe v).usm := by
  refine runProbe_preserves (P := fun s => MaskInv threads Good c amountQ8 s.usm) ?_ ?_ h v
  · exact fun s v h => h
  · intro s h
    rcases closeWindow_usm s with heq | heq
    · rw [heq]
      exact h
    · rw [heq]
      exact h.disable

/-- Whatever becomes of the frame, the pools keep their contract. -/
theorem MaskInv.filter (h : MaskInv threads Good c amountQ8 s.usm) {f : PlayFrame Pool Plane}
    (henv : StatusContract Good usm c f.env) :
    MaskInv threads Good c amountQ8 (playFilter backends threads s f).sys.usm := by
  have hmove := playFilter_move threads backends
    (P := fun s => MaskInv threads Good c amountQ8 s.usm)
    (fun s v _ h => h.runProbe v) (fun s clock h => h.begin clock) h f
  rcases hmove with ⟨-, -, s', hs', hsys⟩ | ⟨s', planes, hs', hcall⟩
  · rcases hsys with hsys | ⟨be, ok, hsys⟩
    · rw [hsys]
      exact hs'
    · rw [hsys]
      exact hs'
  · rw [hcall, (finish_sys threads s' planes f).1]
    cases hview : f.dstView with
    | true => exact (applyUsm_pixels hs' planes henv hview).1
    | false =>
      have hskip : (s'.applyUsm threads planes f).2.usm = { s'.usm with plane := f.scaled } := by
        unfold Playback.applyUsm
        dsimp only
        split
        · rfl
        · rfl
      rw [hskip]
      exact hs'.setPlane f.scaled

end Playback

/-! ### The pools of the plug-in -/

section Plugin

variable {backends : BackendEnv} {c : UsmConfig} {arena : Set ℕ} {amountQ8 : ℤ} {s : Plugin}

/-- The pools of `usm_pool.c`, with their scratch in `arena`. -/
def Plugin.Masked (c : UsmConfig) (arena : Set ℕ) (amountQ8 : ℤ) (s : Plugin) : Prop :=
  MaskInv UsmPool.nThreads (UsmPlanned c arena) c amountQ8 s.play.usm

/-- The luma plane that the mask works on. -/
def PictureView.lumaRect (v : PictureView) (c : UsmConfig) : Set ℕ :=
  rect (v.plane 0).pixels (v.plane 0).pitch.toNat c.width.toNat c.height.toNat

theorem pluginFilter_play (backends : BackendEnv) (s : Plugin) (f : PluginFrame) :
    (pluginFilter backends s f).sys.play =
        (playFilter backends UsmPool.nThreads s.play (s.playFrame backends f)).sys ∧
      (pluginFilter backends s f).usm =
        (playFilter backends UsmPool.nThreads s.play (s.playFrame backends f)).status ∧
      (pluginFilter backends s f).output =
        (playFilter backends UsmPool.nThreads s.play (s.playFrame backends f)).output := by
  obtain ⟨r, hr⟩ : ∃ r, r = playFilter backends UsmPool.nThreads s.play
    (s.playFrame backends f) := ⟨_, rfl⟩
  unfold pluginFilter
  rw [← hr]
  dsimp only
  split <;> exact ⟨rfl, rfl, rfl⟩

/-- The pools of a frame keep the contract on the output's luma plane; without a view of
it there is nothing to keep. -/
theorem playFrame_contract (backends : BackendEnv) (s : Plugin) {f : PluginFrame} (hf : f.usm.Fits c arena)
    (hclear : ∀ v, s.dstView f = some v → Disjoint arena (v.lumaRect c)) :
    ∃ usm, StatusContract (UsmPlanned c arena) usm c (s.playFrame backends f).env ∧
      ∀ v, s.dstView f = some v →
        usm = Sharpened c arena (v.plane 0).pixels (v.plane 0).pitch := by
  cases hview : s.dstView f with
  | none =>
    have henv : (s.playFrame backends f).env = usmPoolEnv 0 0 f.usm := by
      unfold Plugin.playFrame
      rw [hview]
    rw [henv]
    exact ⟨fun _ _ _ => True, ⟨usmPoolEnv_keeps hf, fun {_ _ _ _} _ _ => trivial, fun {h p a m} hp hstatus =>
      (usmStatusLaw hp.inv ⟨⟨some 0, 0, some 0, 0, a⟩, f.usm.outcome h, m⟩).unchanged
        hstatus _ (hf.ends h _)⟩, by simp⟩
  | some v =>
    have henv : (s.playFrame backends f).env =
        usmPoolEnv (v.plane 0).pixels (v.plane 0).pitch f.usm := by
      unfold Plugin.playFrame
      rw [hview]
    rw [henv]
    refine ⟨_, usmPoolEnv_contract hf (hclear v hview), fun v' hv' => ?_⟩
    rw [Option.some.inj hv']

theorem Plugin.Masked.filter (h : s.Masked c arena amountQ8) {f : PluginFrame}
    (hf : f.usm.Fits c arena)
    (hclear : ∀ v, s.dstView f = some v → Disjoint arena (v.lumaRect c)) :
    (pluginFilter backends s f).sys.Masked c arena amountQ8 := by
  obtain ⟨usm, henv, -⟩ := playFrame_contract backends s hf hclear
  unfold Plugin.Masked
  rw [(pluginFilter_play backends s f).1]
  exact MaskInv.filter h henv

/-- What comes out of a call, against what the backend has left. -/
theorem Plugin.Masked.output (h : s.Masked c arena amountQ8) (backends : BackendEnv)
    {f : PluginFrame} (hf : f.usm.Fits c arena) {v : PictureView} (hview : s.dstView f = some v)
    (hclear : Disjoint arena (v.lumaRect c)) {picture : Picture}
    (hpicture : f.output = some picture) {out : Memory}
    (hout : (pluginFilter backends s f).output = some out) :
    let call := pluginFilter backends s f
    if call.usm = .ok ∧ call.sys.play.masks picture.planes = true then
      Sharpened c arena (v.plane 0).pixels (v.plane 0).pitch amountQ8 f.scaled out
    else out = f.scaled := by
  intro call
  obtain ⟨hplay, husm, houtput⟩ := pluginFilter_play backends s f
  obtain ⟨usm, henv, heq⟩ := playFrame_contract backends s hf
    (fun v' hv' => by rwa [Option.some.inj (hv'.symm.trans hview)])
  obtain rfl := heq v hview
  rw [houtput] at hout
  obtain ⟨s', hs', hcall⟩ := playFilter_finish (P := fun s => MaskInv UsmPool.nThreads
      (UsmPlanned c arena) c amountQ8 s.usm) (fun s v h => h.runProbe v)
    (fun s clock h => h.begin clock) h (f := s.playFrame backends f)
    (show (s.playFrame backends f).output = some picture.planes by
      show f.output.map Picture.planes = some picture.planes
      rw [hpicture]
      rfl) hout
  have hdst : (s.playFrame backends f).dstView = true := by
    show (s.dstView f).isSome = true
    rw [hview]
    rfl
  -- what the probe and the clock left is masked; read the call's status off it
  obtain ⟨-, hok, hfail⟩ := applyUsm_pixels hs' picture.planes henv hdst
  obtain ⟨hsys, hstatus⟩ := finish_sys UsmPool.nThreads s' picture.planes (s.playFrame backends f)
  have hcallSys : call.sys.play = (s'.applyUsm UsmPool.nThreads picture.planes
      (s.playFrame backends f)).2 := by
    rw [← hsys, ← hcall]
    exact hplay
  have hcallUsm : call.usm = (s'.applyUsm UsmPool.nThreads picture.planes
      (s.playFrame backends f)).1 := by
    rw [← hstatus, ← hcall]
    exact husm
  rw [hcall] at hout
  unfold Playback.finish at hout
  dsimp only at hout
  rw [← hcallSys, ← hcallUsm] at hout hok hfail
  have hscaled : (s.playFrame backends f).scaled = f.scaled := rfl
  split at hout
  · cases hout
  rename_i hcertain
  rw [hscaled, Option.some.inj hout] at hok hfail
  cases hst : call.usm with
  | ok =>
    have hok := hok hst
    cases hmasks : call.sys.play.masks picture.planes with
    | true =>
      rw [hmasks] at hok
      rw [if_pos ⟨rfl, rfl⟩]
      exact hok
    | false =>
      rw [hmasks] at hok
      rw [if_neg (by simp)]
      exact hok
  | failedUnchanged =>
    rw [if_neg (by simp)]
    exact hfail hst
  | outputUncertain => exact absurd hst hcertain

end Plugin

/-! ### The picture -/

/-- The scratch blocks of the frame's pools are in `arena`, which its output is clear
of. -/
structure PluginFrame.Clear (ctx : ScalerCtx) (c : UsmConfig) (arena : Set ℕ) (f : PluginFrame) :
    Prop where
  fits : f.usm.Fits c arena
  clear : ∀ v, pictureViewInit f.output ctx.chroma (scalerDstRegion ctx) = some v →
    Disjoint arena (v.lumaRect c)

/-- The planes that the frame `fr` works on share no memory, with each other or with
`arena`. -/
structure ZimgFrame.Laid (fr : ZimgFrame) (arena : Set ℕ) : Prop where
  apart : fr.Apart
  clear : Disjoint arena fr.visible

/-- Byte `x` of row `y` of plane `q`, as the graph of the one cell that covers it makes it
of the input picture in `m`. -/
def ZimgFrame.CellByte (lib : ZimgLib) (fr : ZimgFrame) (m : Memory) (q : Plane) (y x : ℕ)
    (v : UInt8) : Prop :=
  ∃ i < fr.priv.pool.nWorkers,
    (∀ j < fr.priv.pool.nWorkers, (fr.dstRect j q).Holds y x ↔ j = i) ∧
    v = lib.output (fr.graph i) (sourceImage m (fr.view .srcPicture) (fr.srcRect i)) q
      (y - (fr.dstRect i q).top) (x - (fr.dstRect i q).left)

/-- The picture in `out`, after a frame `fr` on the memory `m`; `scaled` is what the
backend has left, `masked` whether the mask is in effect. -/
structure PicturePixels (lib : ZimgLib) (arena : Set ℕ) (amountQ8 : ℤ) (chroma : ℕ)
    (fr : ZimgFrame) (masked : Prop) [Decidable masked] (m scaled out : Memory) : Prop where
  /-- Both pictures have their components where the chroma stores them. -/
  stored : fr.view .srcPicture = storedPlanes chroma fr.srcView ∧
    fr.view .dstPicture = storedPlanes chroma fr.dstView
  cells : ∀ q y x, fr.InUse ⟨.dstPicture, q, y, x⟩ →
    fr.CellByte lib m q y x (scaled (fr.addr ⟨.dstPicture, q, y, x⟩))
  chroma : ∀ q y x, q ≠ .y → fr.InUse ⟨.dstPicture, q, y, x⟩ →
    out (fr.addr ⟨.dstPicture, q, y, x⟩) = scaled (fr.addr ⟨.dstPicture, q, y, x⟩)
  luma : ∀ y x, fr.InUse ⟨.dstPicture, .y, y, x⟩ → out (fr.addr ⟨.dstPicture, .y, y, x⟩) =
    if masked then usmAt (fun y x => scaled (fr.addr ⟨.dstPicture, .y, y, x⟩))
      fr.priv.geom.dstW.toNat fr.priv.geom.dstH.toNat (clampAmountQ8 amountQ8) y x
    else scaled (fr.addr ⟨.dstPicture, .y, y, x⟩)
  frame : ∀ a ∉ fr.visible ∪ fr.scratch, a ∉ arena → out a = m a

section Ready

variable {ctx : ScalerCtx} {fr : ZimgFrame}

/-- The luma plane of the destination is plane 0 of its view. -/
theorem ZimgFrame.view_luma (fr : ZimgFrame) :
    (fr.view .dstPicture).data .y = (fr.dstView.plane 0).pixels ∧
      (fr.view .dstPicture).pitch .y = (fr.dstView.plane 0).pitch := by
  have hphys : chromaPhysicalPlaneIndex Plane.y.index fr.priv.yv12SwapUv = 0 :=
    (chromaPhysicalPlaneIndex_lt .y fr.priv.yv12SwapUv).2.mpr rfl
  show (fr.dstView.plane (chromaPhysicalPlaneIndex Plane.y.index fr.priv.yv12SwapUv)).pixels = _ ∧
    (fr.dstView.plane (chromaPhysicalPlaneIndex Plane.y.index fr.priv.yv12SwapUv)).pitch = _
  rw [hphys]
  exact ⟨rfl, rfl⟩

theorem FrameReady.luma_size (h : FrameReady ctx fr) :
    fr.rows .dstPicture .y = ctx.dstH.toNat ∧ fr.cols .dstPicture .y = ctx.dstW.toNat := by
  have hgeom : fr.priv.geom = ctx.geom := h.geom
  constructor
  · show fr.priv.geom.dstH.toNat / 2 ^ 0 = _
    rw [hgeom]
    exact Nat.div_one _
  · show fr.priv.geom.dstW.toNat / 2 ^ 0 = _
    rw [hgeom]
    exact Nat.div_one _

/-- Every byte of the picture comes from the cell that covers it. -/
theorem FrameReady.cellByte (h : FrameReady ctx fr) (hapart : fr.Apart) {rc : ℕ → ℤ}
    (hrc : ∀ i < fr.priv.pool.nWorkers, rc i = 0) {lib : ZimgLib} {m m' : Memory}
    (hrun : DisjointParallel.Interleaving (CellStep.run lib)
      (fun i : Fin fr.priv.pool.nWorkers => fr.priv.cellRun lib rc i) m m') {q : Plane} {y x : ℕ}
    (huse : fr.InUse ⟨.dstPicture, q, y, x⟩) :
    fr.CellByte lib m q y x (m' (fr.addr ⟨.dstPicture, q, y, x⟩)) := by
  have hgeom : fr.priv.geom = ctx.geom := h.geom
  obtain ⟨i, hi, hcell⟩ := h.grid.exists_dstRect (q := q) (y := y) (x := x)
    (by rw [show ctx.dstH = fr.priv.geom.dstH by rw [hgeom]; rfl]; exact huse.1)
    (by rw [show ctx.dstW = fr.priv.geom.dstW by rw [hgeom]; rfl]; exact huse.2)
  rw [← h.count] at hi
  rw [← h.cell_eq] at hcell
  obtain ⟨hk, hbyte⟩ := ZimgFrame.rectAddr_dst fr hcell
  have hvalue := h.output hrc hapart hrun hi hk
  rw [hbyte] at hvalue
  refine ⟨i, hi, fun j hj => ⟨fun hother => ?_, fun hsame => hsame ▸ hcell⟩, hvalue⟩
  exact h.dstRect_unique hj hi hother hcell

end Ready

section Picture

variable {ctx : ScalerCtx} {workerBudget pref : ℤ} {haveZimg : Bool} {c : UsmConfig}
  {arena : Set ℕ} {amountQ8 : ℤ} {s : Plugin}

theorem Plugin.Masked.after (h : s.Masked c arena amountQ8)
    (hinv : PluginInv ctx workerBudget pref s) {frames : List PluginFrame}
    (hframes : ∀ f ∈ frames, f.Clear ctx c arena) :
    (pluginAfter (pluginBackends haveZimg) s frames).Masked c arena amountQ8 := by
  induction frames generalizing s with
  | nil => exact h
  | cons f frames ih =>
    have hf := hframes f (.head _)
    refine ih (h.filter hf.fits fun v hv => ?_) (hinv.filter haveZimg f).1
      fun g hg => hframes g (.tail _ hg)
    unfold Plugin.dstView at hv
    rw [hinv.scaler] at hv
    exact hf.clear v hv

/-- A frame of zimg that comes out. -/
theorem picture_pixels (hctx : OpenPlanned ctx) (hinv : PluginInv ctx workerBudget pref s)
    (hmask : s.Masked c arena amountQ8) (hsize : c.width = ctx.dstW ∧ c.height = ctx.dstH)
    {f : PluginFrame} (hfits : f.usm.Fits c arena) {p : ZimgPriv}
    (hpriv : s.priv = some (.zimg p)) {lib : ZimgLib}
    (hends : (zimgProcess ctx p f.input f.output f.zimg).Ends lib f.zimg.rc f.memory f.scaled)
    (hlaid : ∀ srcView dstView,
      zimgFrameViewsInit ctx f.input f.output = some (srcView, dstView) →
      ZimgFrame.Laid ⟨(zimgProcess ctx p f.input f.output f.zimg).priv, srcView, dstView⟩ arena)
    {out : Memory} (hout : (pluginFilter (pluginBackends haveZimg) s f).output = some out) :
    let call := pluginFilter (pluginBackends haveZimg) s f
    ∃ picture srcView dstView, f.output = some picture ∧
      zimgFrameViewsInit ctx f.input f.output = some (srcView, dstView) ∧
      PicturePixels lib arena amountQ8 ctx.chroma
        ⟨(zimgProcess ctx p f.input f.output f.zimg).priv, srcView, dstView⟩
        (call.usm = .ok ∧ call.sys.play.masks picture.planes = true) f.memory f.scaled out := by
  intro call
  have hok : (zimgProcess ctx p f.input f.output f.zimg).status = .ok := by
    cases pluginFilter_move (pluginBackends haveZimg) s f with
    | idle _ _ hno _ _ _ => exact absurd (hno.symm.trans hout) (by simp)
    | transient _ _ _ _ _ hno _ _ _ => exact absurd (hno.symm.trans hout) (by simp)
    | fatal _ _ _ _ _ _ hno _ _ _ => exact absurd (hno.symm.trans hout) (by simp)
    | ok be priv hbe hstatus _ _ _ _ =>
      rw [hinv.scaler, hpriv] at hstatus
      exact congrArg Prod.fst hstatus
  have hreach : ZimgReachable ctx workerBudget p := by
    have hof := hinv.priv
    rw [hpriv] at hof
    generalize s.play.backend = be at hof
    cases hof with
    | zimg hreach _ _ => exact hreach
  obtain ⟨srcView, dstView, hviews, hdisp⟩ := zimgProcess_ok (zimgReachable_inv hreach) hok
  have hready := hdisp.frameReady hctx hviews
  obtain ⟨hapart, hclear⟩ := hlaid srcView dstView hviews
  obtain ⟨-, hdstView⟩ := zimgFrameViewsInit_eq hviews
  obtain ⟨picture, -, hpicture, -⟩ := pictureViewInit_plane hdstView
  set r := zimgProcess ctx p f.input f.output f.zimg
  set fr : ZimgFrame := ⟨r.priv, srcView, dstView⟩ with hfr
  have hrun := hends
  rw [ZimgProcessed.Ends, hdisp.dispatched, if_neg (by decide)] at hrun
  have hrun := hrun hdisp.completed
  -- the luma plane of the view is the one of the frame
  have hgeom : fr.priv.geom = ctx.geom := hready.geom
  obtain ⟨hrows, hcols⟩ := hready.luma_size
  obtain ⟨hdata, hpitch⟩ := fr.view_luma
  have hluma : dstView.lumaRect c = fr.bytes .dstPicture .y := by
    unfold PictureView.lumaRect ZimgFrame.bytes
    rw [hdata, hpitch, hrows, hcols, hsize.1, hsize.2]
  have hdst : s.dstView f = some dstView := by
    unfold Plugin.dstView
    rw [hinv.scaler]
    exact hdstView
  have hlumaClear : Disjoint arena (dstView.lumaRect c) := by
    rw [hluma]
    exact hclear.mono_right (fun a ha => (⟨.y, ha⟩ : a ∈ fr.visible))
  have hmasked := hmask.output (pluginBackends haveZimg) hfits hdst hlumaClear
    hpicture hout
  have haddr : ∀ q y x, fr.InUse ⟨.dstPicture, q, y, x⟩ →
      fr.addr ⟨.dstPicture, q, y, x⟩ ∈ fr.bytes .dstPicture q := fun q y x huse =>
    addr_mem_rect huse.2 huse.1
  have hout_eq : ∀ a, a ∉ fr.bytes .dstPicture .y → a ∉ arena → out a = f.scaled a := by
    intro a ha harena
    dsimp only at hmasked
    split at hmasked
    · exact hmasked.2 a (by rw [← hluma] at ha; exact ha) harena
    · rw [hmasked]
  have hswap := chromaToZimg_swap hready.grid.chroma
  refine ⟨picture, srcView, dstView, hpicture, hviews,
    ⟨(storedPlanes_eq hswap srcView).symm, (storedPlanes_eq hswap dstView).symm⟩, ?_, ?_, ?_, ?_⟩
  · exact fun q y x huse => hready.cellByte hapart hdisp.rc hrun huse
  · intro q y x hq huse
    refine hout_eq _ (fun hmem => ?_) fun harena => ?_
    · refine Set.disjoint_left.mp (hapart .dstPicture q .dstPicture .y (by decide) ?_)
        (haddr q y x huse) hmem
      simpa using hq
    · exact Set.disjoint_left.mp hclear harena ⟨q, haddr q y x huse⟩
  · intro y x huse
    have hy : y < c.height.toNat := hsize.2 ▸ hrows ▸ huse.1
    have hx : x < c.width.toNat := hsize.1 ▸ hcols ▸ huse.2
    dsimp only at hmasked
    split at hmasked
    · rename_i hon
      rw [if_pos hon]
      have hpixel := hmasked.1 y hy x hx
      have hsame : ∀ y x, fr.addr ⟨.dstPicture, .y, y, x⟩ =
          PlaneMemory.addr (dstView.plane 0).pixels (dstView.plane 0).pitch.toNat y x := by
        intro y x
        unfold ZimgFrame.addr
        rw [hdata, hpitch]
      have hscaled : (fun y x => f.scaled (fr.addr ⟨.dstPicture, .y, y, x⟩)) =
          planeAt f.scaled (dstView.plane 0).pixels (dstView.plane 0).pitch.toNat := by
        funext y x
        rw [hsame]
        rfl
      show out (fr.addr ⟨.dstPicture, .y, y, x⟩) =
        usmAt (fun y x => f.scaled (fr.addr ⟨.dstPicture, .y, y, x⟩)) fr.priv.geom.dstW.toNat
          fr.priv.geom.dstH.toNat (clampAmountQ8 amountQ8) y x
      rw [hsame, hscaled, hpixel, hsize.1, hsize.2, hgeom]
      rfl
    · rename_i hoff
      rw [if_neg hoff, hmasked]
  · intro a ha harena
    rw [hout_eq a (fun hmem => ha (.inl ⟨.y, hmem⟩)) harena]
    exact hrun.frame (hready.separated hdisp.rc lib hapart)
      fun i hmem => ha (ZimgFrame.owned_subset _ i hmem)

end Picture

/-! ### From Open on -/

theorem initUsmPool_amount {Pool Plane : Type*} (c : UsmConfig)
    (create : ℤ → ℤ → ℤ → ℤ → Option Pool) (plane : Plane) :
    (Adaptive.initUsmPool c create plane).amountQ8 = usmAmountPctToQ8 c.usmPct ∨
      (Adaptive.initUsmPool c create plane).amountQ8 = 0 := by
  unfold Adaptive.initUsmPool
  dsimp only
  split
  · exact .inr rfl
  split
  · exact .inr rfl
  · exact .inl rfl

section Open

variable {backends : BackendEnv} {fmt : VideoFormat} {cfg : Config} {pc : ProbeConfig} {cores : ℤ}
  {o : PluginOpens} {u : UsmOptions} {m : Memory} {s : Plugin} {ctx : ScalerCtx} {arena : Set ℕ}

/-- The first pool's scratch block is in `arena`. -/
def PluginOpens.Clear (o : PluginOpens) (ctx : ScalerCtx) (arena : Set ℕ) : Prop :=
  rect o.usmScratch ctx.dstW.toNat ctx.dstW.toNat (usmPoolScratchRows * threadsMax.toNat) ⊆ arena

theorem pluginOpen_masked (hplan : planOpen fmt cfg cores = some ctx)
    (hopen : pluginOpen backends fmt cfg pc cores o u m = some s) (hclear : o.Clear ctx arena) :
    s.Masked (usmConfig cfg ctx cores u) arena (usmAmountPctToQ8 (clampConfig cfg).usm) := by
  unfold pluginOpen at hopen
  rw [hplan] at hopen
  obtain ⟨play, hplay, rfl⟩ := Option.map_eq_some_iff.mp hopen
  have hpools : AdaptiveInv UsmPool.nThreads play.usm := playOpen_inv hplay
  obtain ⟨sys, hsys, rfl⟩ := Option.map_eq_some_iff.mp hplay
  obtain ⟨ctx', be, hplan', hscaler, -⟩ := autoupscaleOpen_backend hsys
  obtain rfl := Option.some.inj (hplan.symm.trans hplan')
  let first : UsmPoolOutcome := { wellOutcome with alloc := o.usmAlloc, scratch := o.usmScratch }
  have hfirst : first.Fits (usmConfig cfg ctx cores u) arena :=
    ⟨hclear, fun h r => (exists_ends r).choose_spec⟩
  have husm : (FilterSys.playback sys (Adaptive.initUsmPool (usmConfig cfg sys.scaler cores u)
      (fun n w h rows => usmPoolCreate n w h rows o.usmAlloc o.usmScratch) m)).usm =
      Adaptive.initUsmPool (usmConfig cfg ctx cores u)
        (fun n w h rows => usmPoolCreate n w h rows o.usmAlloc o.usmScratch) m := by
    rw [hscaler]
    rfl
  unfold Plugin.Masked
  dsimp only at hpools ⊢
  rw [husm] at hpools ⊢
  exact ⟨hpools, initUsmPool_kept (fun {n p} h => usmPoolCreate_planned hfirst h) m,
    initUsmPool_amount _ _ _⟩

end Open

/-- **What a picture holds when it comes out of the plug-in.**

`before` is any history from Open on that leaves zimg in use, and `f` a frame that
comes out.  Each byte of its picture is the output of libzimg, in the cell that covers it,
on the input picture that the call found; on the luma plane, while the mask is in
effect, that picture is sharpened once, and nothing else has changed. -/
theorem plugin_pixels {haveZimg : Bool} {fmt : VideoFormat} {cfg : Config} {pc : ProbeConfig}
    {cores : ℤ} {o : PluginOpens} {u : UsmOptions} {m : Memory} {s : Plugin} {ctx : ScalerCtx}
    (hplan : planOpen fmt cfg cores = some ctx)
    (hopen : pluginOpen (pluginBackends haveZimg) fmt cfg pc cores o u m = some s)
    {arena : Set ℕ} (hclear : o.Clear ctx arena) {before : List PluginFrame}
    (hbefore : ∀ g ∈ before, g.Clear ctx (usmConfig cfg ctx cores u) arena)
    {s' : Plugin} (hs' : s' = pluginAfter (pluginBackends haveZimg) s before) {f : PluginFrame}
    (hfits : f.usm.Fits (usmConfig cfg ctx cores u) arena) {p : ZimgPriv}
    (hpriv : s'.priv = some (.zimg p)) {lib : ZimgLib}
    (hends : (zimgProcess ctx p f.input f.output f.zimg).Ends lib f.zimg.rc f.memory f.scaled)
    (hlaid : ∀ srcView dstView,
      zimgFrameViewsInit ctx f.input f.output = some (srcView, dstView) →
      ZimgFrame.Laid ⟨(zimgProcess ctx p f.input f.output f.zimg).priv, srcView, dstView⟩ arena)
    {out : Memory} (hout : (pluginFilter (pluginBackends haveZimg) s' f).output = some out) :
    let call := pluginFilter (pluginBackends haveZimg) s' f
    ∃ picture srcView dstView, f.output = some picture ∧
      zimgFrameViewsInit ctx f.input f.output = some (srcView, dstView) ∧
      PicturePixels lib arena (usmAmountPctToQ8 (clampConfig cfg).usm) ctx.chroma
        ⟨(zimgProcess ctx p f.input f.output f.zimg).priv, srcView, dstView⟩
        (call.usm = .ok ∧ call.sys.play.masks picture.planes = true) f.memory f.scaled out := by
  subst hs'
  obtain ⟨ctx', hplan', hinv, -⟩ := pluginOpen_inv hopen
  obtain rfl := Option.some.inj (hplan.symm.trans hplan')
  exact picture_pixels (planOpen_spec hplan) (hinv.after haveZimg before)
    ((pluginOpen_masked hplan hopen hclear).after hinv hbefore) ⟨rfl, rfl⟩ hfits hpriv hends
    hlaid hout

/-- The 2x4 YV12 picture, sharpened at 100%. -/
def sharpCfg : Config := ⟨1, 0, 0, 100, 0, 2, 0, 1, 1, 2⟩

def sharpFmt : VideoFormat := ⟨fourcc 'Y' 'V' '1' '2', 2, 4, 2, 4, 0, 0⟩

/-- Everything succeeds; the first pool's scratch is a megabyte up. -/
def sharpOpens : PluginOpens := ⟨true, ⟨2, true, true, true, true⟩, true, 2 ^ 20⟩

noncomputable def sharpFrame : PluginFrame where
  input := some sampleSrc
  output := some sampleDst
  clock := some ⟨1, 0⟩
  memory _ := 100
  zimg := smoothOutcome
  swsLines := 16
  scaled := (sampleResult_ends true true fun _ => 100).choose
  fallback := sharpOpens.backend
  usm := { wellOutcome with scratch := 2 ^ 20 }

theorem sharpScratch_subset {base : ℕ} (h : 2 ^ 20 ≤ base) (pitch cols rows : ℕ) :
    rect base pitch cols rows ⊆ {a | 2 ^ 20 ≤ a} := by
  rintro a ⟨y, -, x, -, rfl⟩
  exact h.trans ((Nat.le_add_right _ _).trans (Nat.le_add_right _ x))

theorem sharpCfg_planned : planOpen sharpFmt sharpCfg 8 =
    some (sampleCtx true.toInt true.toInt) := by
  decide +kernel

theorem sharpFrame_fits : sharpFrame.usm.Fits
    (usmConfig sharpCfg (sampleCtx true.toInt true.toInt) 8 ⟨8, 1⟩) {a | 2 ^ 20 ≤ a} :=
  ⟨sharpScratch_subset le_rfl _ _ _, fun _ r => (exists_ends r).choose_spec⟩

theorem sharpFrame_laid {srcView dstView : PictureView}
    (hviews : zimgFrameViewsInit (sampleCtx true.toInt true.toInt) (some sampleSrc)
      (some sampleDst) = some (srcView, dstView)) :
    ZimgFrame.Laid ⟨(sampleResult true true).priv, srcView, dstView⟩ {a | 2 ^ 20 ≤ a} := by
  obtain ⟨rfl, rfl⟩ := Prod.mk.inj (Option.some.inj ((sampleViews_eq true true).symm.trans hviews))
  refine ⟨sampleResult_apart true true, Set.disjoint_right.mpr ?_⟩
  rintro a ⟨q, ha⟩ (hle : 2 ^ 20 ≤ a)
  -- the output picture ends below the sixteenth slot
  have hend : let fr : ZimgFrame :=
        ⟨(sampleResult true true).priv, (sampleViews true true).1, (sampleViews true true).2⟩
      (fr.view .dstPicture).data q + fr.rows .dstPicture q *
          ((fr.view .dstPicture).pitch q).toNat ≤ 2 ^ 16 ∧
        fr.cols .dstPicture q ≤ ((fr.view .dstPicture).pitch q).toNat := by
    cases q <;> decide +kernel
  have hlt := (rect_subset_bytes hend.2 ha).2
  dsimp only at hend
  omega

/-- The first frame comes out, and sharpened. -/
theorem plugin_pixels_sharpened :
    let call s := pluginFilter (pluginBackends true) s sharpFrame
    ∃ s out srcView dstView, pluginOpen (pluginBackends true) sharpFmt sharpCfg ⟨0, 0⟩ 8 sharpOpens
        ⟨8, 1⟩ (fun _ => 100) = some s ∧
      (call s).output = some out ∧ (call s).usm = .ok ∧ (call s).sys.play.masks 3 = true ∧
      PicturePixels flatLib {a | 2 ^ 20 ≤ a} 256 (fourcc 'Y' 'V' '1' '2')
        ⟨(sampleResult true true).priv, srcView, dstView⟩
        ((call s).usm = .ok ∧ (call s).sys.play.masks 3 = true) (fun _ => 100) sharpFrame.scaled
        out := by
  intro call
  have hrun : (pluginOpen (pluginBackends true) sharpFmt sharpCfg ⟨0, 0⟩ 8 sharpOpens ⟨8, 1⟩
      (fun _ => 100)).map (fun s => (s.play.backend, (call s).output.isSome, (call s).usm,
        (call s).sys.play.masks 3)) = some (some .zimg, true, .ok, true) := by
    decide +kernel
  obtain ⟨s, hs, hcall⟩ := Option.map_eq_some_iff.mp hrun
  simp only [Prod.mk.injEq] at hcall
  obtain ⟨hbackend, hsome, husm, hmasks⟩ := hcall
  obtain ⟨out, hout⟩ := Option.isSome_iff_exists.mp hsome
  have hpriv : s.priv = some (.zimg (samplePriv true true)) := by
    have hopen : zimgOpen (sampleCtx true.toInt true.toInt) 2 true true =
        some (samplePriv true true) := by
      rw [samplePriv, Option.some_get]
    rw [pluginOpen_priv sharpCfg_planned hs, hbackend, Option.bind_some]
    simp only [backendOpen, sharpOpens, hopen, Option.map_some]
  have hclear : sharpOpens.Clear (sampleCtx true.toInt true.toInt) {a | 2 ^ 20 ≤ a} :=
    sharpScratch_subset le_rfl _ _ _
  have hends : (zimgProcess (sampleCtx true.toInt true.toInt) (samplePriv true true)
      sharpFrame.input sharpFrame.output sharpFrame.zimg).Ends flatLib sharpFrame.zimg.rc
      sharpFrame.memory sharpFrame.scaled :=
    (sampleResult_ends true true fun _ => 100).choose_spec
  have hbefore : ∀ g ∈ ([] : List PluginFrame),
      g.Clear (sampleCtx true.toInt true.toInt) (usmConfig sharpCfg (sampleCtx true.toInt true.toInt)
        8 ⟨8, 1⟩) {a | 2 ^ 20 ≤ a} := fun _ hg => absurd hg List.not_mem_nil
  have hpixels := plugin_pixels sharpCfg_planned hs hclear hbefore rfl
    sharpFrame_fits hpriv hends (fun _ _ hviews => sharpFrame_laid hviews) hout
  obtain ⟨picture, srcView, dstView, hpicture, hviews, hpixels⟩ := hpixels
  obtain rfl : sampleDst = picture := Option.some.inj hpicture
  have hamount : usmAmountPctToQ8 (clampConfig sharpCfg).usm = 256 := by decide
  rw [hamount] at hpixels
  exact ⟨s, out, srcView, dstView, hs, hout, husm, hmasks, hpixels⟩

end AutoUpscale
