/-
The window of the content probe and the life of the unsharp mask, over a playback.

The probe runs before it is known whether the frame will be dropped; the mask is
switched off by the probe's verdict or by a failing pass, and the adaptive
selection exchanges its pool in between.  Three invariants carry the law: the
probe's log against its accumulator (`Observed`), the pool against the amount
(`UsmGate`), and the ownership of the pools (`AdaptiveInv`).

* **`probe_gate_lifecycle`** — the law of a playback (`ProbeGateLaw`).
-/
import AutoUpscale.PlaybackUsm
import AutoUpscale.ProbeTotals

namespace AutoUpscale

open Adaptive StridedLoop

variable {Pool Plane : Type*}

/-! ### What the probe has observed -/

/-- The source views in a log. -/
def observedViews (log : List ProbeEvent) : List LumaView :=
  log.filterMap fun
    | .observed v => some v
    | _ => none

theorem observedViews_map (views : List LumaView) :
    observedViews (views.map .observed) = views := by
  induction views with
  | nil => rfl
  | cons v views ih => exact congrArg (v :: ·) ih

/-- The exact sum and count of the Laplacians of a source view. -/
def viewLap (c : ScalerCtx) (v : LumaView) : ℕ × ℕ :=
  if v.pitch ≤ 0 ∨ v.pitch < c.srcW then 0 else lapTally v.pixels v.pitch c.srcW c.srcH

/-- The exact sum and count of its block edges. -/
def viewEdge (c : ScalerCtx) (v : LumaView) : ℕ × ℕ :=
  if v.pitch ≤ 0 ∨ v.pitch < c.srcW then 0 else edgeTally v.pixels v.pitch c.srcW c.srcH

variable {threads : Pool → ℤ} {backends : BackendEnv} {s : Playback Pool Plane}
  {views : List LumaView}

theorem metrics_tallies (v : LumaView) :
    Tallies (s.metrics v) (viewLap s.scaler v, viewEdge s.scaler v) := by
  unfold Playback.metrics viewLap viewEdge
  by_cases hpitch : v.pitch ≤ 0 ∨ v.pitch < s.scaler.srcW
  · rw [if_pos hpitch, if_pos hpitch]
    unfold probeMetrics
    dsimp only
    rw [if_pos hpitch]
    exact ⟨Counted.zero, Counted.zero⟩
  · rw [if_neg hpitch, if_neg hpitch]
    exact probeMetrics_counted v.pixels s.scaler.srcH hpitch

/-- The log of a window: the views alone while it is open, and the verdict once,
right after the sixtieth. -/
def WindowLog (views : List LumaView) (s : Playback Pool Plane) : Prop :=
  (views.length < probeWindowFrames ∧ s.probeLog = views.map .observed) ∨
    (views.length = probeWindowFrames ∧ s.probe.active = false ∧
      ∃ v, s.probeLog = views.map .observed ++ [.verdict v] ∧
        (v.skip = true → s.usm.pool = none))

/-- The probe has observed `views`. -/
structure Observed (views : List LumaView) (s : Playback Pool Plane) : Prop where
  frames : s.probe.accum.frames = views.length
  lap : Counted s.probe.accum.lapSum s.probe.accum.lapSamples
    (views.map (viewLap s.scaler)).sum
  edge : Counted s.probe.accum.edgeSum s.probe.accum.edgeSamples
    (views.map (viewEdge s.scaler)).sum
  log : WindowLog views s

/-- Nothing but the probe changes what it has observed, while a mask that is off
stays off. -/
theorem Observed.congr (h : Observed views s) {s' : Playback Pool Plane}
    (hprobe : s'.probe = s.probe) (hscaler : s'.scaler = s.scaler)
    (hlog : s'.probeLog = s.probeLog) (hpool : s.usm.pool = none → s'.usm.pool = none) :
    Observed views s' := by
  refine ⟨?_, ?_, ?_, ?_⟩
  · rw [hprobe]
    exact h.frames
  · rw [hprobe, hscaler]
    exact h.lap
  · rw [hprobe, hscaler]
    exact h.edge
  · rcases h.log with ⟨hlen, hl⟩ | ⟨hlen, hactive, v, hl, hskip⟩
    · exact .inl ⟨hlen, hlog.trans hl⟩
    · refine .inr ⟨hlen, ?_, v, hlog.trans hl, fun hv => hpool (hskip hv)⟩
      rw [hprobe]
      exact hactive

/-- One more view while the probe is active. -/
theorem Observed.runProbe (h : Observed views s) (hactive : s.probe.active = true)
    (v : LumaView) : Observed (views ++ [v]) (s.runProbe (some v)) := by
  have hopen : views.length < probeWindowFrames ∧ s.probeLog = views.map .observed := by
    rcases h.log with hlog | ⟨-, hoff, -⟩
    · exact hlog
    · exact absurd (hactive.symm.trans hoff) (by decide)
  have hlen : (views ++ [v]).length = views.length + 1 := List.length_append
  have hframes : (s.observe v).probe.accum.frames = (views ++ [v]).length := by
    show s.probe.accum.frames + 1 = _
    rw [h.frames, hlen]
  have htallies := metrics_tallies (s := s) v
  have hlap : Counted (s.observe v).probe.accum.lapSum (s.observe v).probe.accum.lapSamples
      ((views ++ [v]).map (viewLap s.scaler)).sum := by
    rw [List.map_append, List.sum_append, List.map_singleton, List.sum_singleton]
    exact h.lap.merge htallies.1
  have hedge : Counted (s.observe v).probe.accum.edgeSum (s.observe v).probe.accum.edgeSamples
      ((views ++ [v]).map (viewEdge s.scaler)).sum := by
    rw [List.map_append, List.sum_append, List.map_singleton, List.sum_singleton]
    exact h.edge.merge htallies.2
  have hlog : (s.observe v).probeLog = (views ++ [v]).map .observed := by
    show s.probeLog ++ [.observed v] = _
    rw [hopen.2, List.map_append, List.map_singleton]
  unfold Playback.runProbe
  dsimp only
  split
  · rename_i hlt
    exact ⟨hframes, hlap, hedge, .inl ⟨hframes ▸ hlt, hlog⟩⟩
  · -- the sixtieth view closes the window
    rename_i hfull
    have hsixty : (views ++ [v]).length = probeWindowFrames := by
      rw [hframes] at hfull
      omega
    obtain ⟨w, -, heq⟩ := closeWindow_eq (s.observe v)
    rw [heq]
    refine ⟨hframes, hlap, hedge, .inr ⟨hsixty, rfl, w, ?_, fun hskip => ?_⟩⟩
    · show (s.observe v).probeLog ++ [.verdict w] = _
      rw [hlog]
    · show (if w.skip then Adaptive.disableUsm (s.observe v).usm else (s.observe v).usm).pool = none
      rw [if_pos hskip]
      rfl

/-! ### The pool and the amount -/

/-- The mask is on, with a pool and an amount, or off, with neither. -/
def UsmGate (u : UsmSystem Pool Plane) : Prop :=
  (u.pool ≠ none ∧ 0 < u.amountQ8) ∨ (u.pool = none ∧ u.amountQ8 = 0)

theorem disableUsm_gate (u : UsmSystem Pool Plane) : UsmGate (Adaptive.disableUsm u) :=
  .inr ⟨rfl, disableUsm_amount u⟩

theorem UsmGate.congr {u u' : UsmSystem Pool Plane} (h : UsmGate u) (hpool : u'.pool = u.pool)
    (hamount : u'.amountQ8 = u.amountQ8) : UsmGate u' := by
  unfold UsmGate
  rw [hpool, hamount]
  exact h

/-- A pass keeps the pool or exchanges it, and a failing one may switch the mask
off. -/
theorem applyUsmIfEnabled_gate {u : UsmSystem Pool Plane} (hinv : AdaptiveInv threads u)
    (h : UsmGate u) (env : FrameEnv Pool Plane) :
    UsmGate (Adaptive.applyUsmIfEnabled threads u env).2 := by
  cases applyUsmIfEnabled_exit threads u env with
  | off _ hout =>
    rw [hout]
    exact h
  | kept hamount hpool _ hout =>
    rw [hout]
    refine .inl ⟨(usmAdaptiveApply_callLaw hinv hpool env u.amountQ8).pool, ?_⟩
    rw [usmAdaptiveApply_amount]
    exact hamount
  | disabled _ _ _ _ hout =>
    rw [hout]
    exact disableUsm_gate _

theorem initUsmPool_gate (c : UsmConfig) (create : ℤ → ℤ → ℤ → ℤ → Option Pool)
    (plane : Plane) : UsmGate (Adaptive.initUsmPool c create plane) := by
  unfold Adaptive.initUsmPool
  dsimp only
  split
  · exact .inr ⟨rfl, rfl⟩
  rename_i hon
  split
  · exact .inr ⟨rfl, rfl⟩
  · refine .inl ⟨nofun, ?_⟩
    -- one per cent is two 256ths
    show 0 < usmAmountPctToQ8 c.usmPct
    unfold usmAmountPctToQ8 usmAmountMax
    have hpct : ¬ c.usmPct ≤ 0 := fun hle => hon (.inl hle)
    rw [if_neg hpct]
    split <;> omega

/-! ### A mask that is off stays off -/

theorem closeWindow_off (h : s.usm.pool = none) : s.closeWindow.usm.pool = none := by
  rcases closeWindow_usm s with hkept | hoff
  · rw [hkept]
    exact h
  · rw [hoff]
    rfl

theorem runProbe_off (h : s.usm.pool = none) (v : Option LumaView) :
    (s.runProbe v).usm.pool = none :=
  runProbe_preserves (P := fun s => s.usm.pool = none) (fun _ _ hs => hs)
    (fun _ hs => closeWindow_off hs) h v

/-- A pass without a pool does nothing. -/
theorem applyUsm_off (h : s.usm.pool = none) (planes : ℤ) (f : PlayFrame Pool Plane) :
    s.applyUsm threads planes f = (.ok, { s with usm := { s.usm with plane := f.scaled } }) :=
  if_pos (.inr (.inl h))

theorem playFilter_off (h : s.usm.pool = none) (f : PlayFrame Pool Plane) :
    (playFilter backends threads s f).sys.usm.pool = none := by
  refine playFilter_preserves (P := fun s => s.usm.pool = none) ?_ ?_ ?_ ?_ h f
  · intro s v _ hs
    exact runProbe_off hs v
  · intro s clock hs
    exact (usmAdaptiveBegin_pool s.usm clock).trans hs
  · intro s be ok hs
    exact hs
  · intro s planes f hs
    rw [applyUsm_off hs]
    exact hs

theorem finish_off_output (h : s.usm.pool = none) (planes : ℤ) (f : PlayFrame Pool Plane)
    {p : Plane} (hp : (s.finish threads planes f).output = some p) : p = f.scaled := by
  unfold Playback.finish at hp
  rw [applyUsm_off h] at hp
  exact (Option.some.inj hp).symm

/-- With the mask off, a picture that comes out is the one that was scaled. -/
theorem playFilter_off_output (h : s.usm.pool = none) (f : PlayFrame Pool Plane) {p : Plane}
    (hp : (playFilter backends threads s f).output = some p) : p = f.scaled := by
  have hmove := playFilter_move threads backends
    (P := fun s => s.usm.pool = none) (fun s v _ hs => runProbe_off hs v)
    (fun s clock hs => (usmAdaptiveBegin_pool s.usm clock).trans hs) h f
  rcases hmove with ⟨hnone, -⟩ | ⟨s', planes, hs', hcall⟩
  · exact absurd (hnone.symm.trans hp) nofun
  · rw [hcall] at hp
    exact finish_off_output hs' planes f hp

/-- A pass that fails switches the mask off, unless it retains the pool. -/
theorem applyUsm_failed (planes : ℤ) (f : PlayFrame Pool Plane)
    (hfail : (s.applyUsm threads planes f).1 ≠ .ok)
    (hret : (s.applyUsm threads planes f).2.usm.adaptive.retained = false) :
    (s.applyUsm threads planes f).2.usm.pool = none := by
  unfold Playback.applyUsm at *
  dsimp only at hfail hret ⊢
  split at hfail
  · exact absurd rfl hfail
  split at hfail
  · exact absurd rfl hfail
  rename_i hgo hview
  rw [if_neg hgo, if_neg hview] at hret ⊢
  cases applyUsmIfEnabled_exit threads { s.usm with plane := f.scaled } f.env with
  | off _ hout =>
    rw [hout] at hfail
    exact absurd rfl hfail
  | kept _ _ hcall hout =>
    rw [hout] at hfail hret
    rcases hcall with hok | hretained
    · exact absurd hok hfail
    · exact absurd (hretained.symm.trans hret) (by decide)
  | disabled _ _ _ _ hout =>
    rw [hout]
    rfl

/-! ### The invariant of a playback -/

/-- What holds after every call. -/
structure PlayInv (threads : Pool → ℤ) (s : Playback Pool Plane) : Prop where
  pools : AdaptiveInv threads s.usm
  gate : UsmGate s.usm
  observed : ∃ views, Observed views s

theorem closeWindow_gate (h : UsmGate s.usm) : UsmGate s.closeWindow.usm := by
  rcases closeWindow_usm s with hkept | hoff
  · rw [hkept]
    exact h
  · rw [hoff]
    exact disableUsm_gate s.usm

theorem PlayInv.runProbe (h : PlayInv threads s) (hactive : s.probe.active = true)
    (v : Option LumaView) : PlayInv threads (s.runProbe v) := by
  obtain ⟨views, hviews⟩ := h.observed
  cases v with
  | none => exact h
  | some v =>
    have hgate : UsmGate (s.runProbe (some v)).usm :=
      runProbe_preserves (P := fun s => UsmGate s.usm) (fun _ _ hs => hs)
        (fun _ hs => closeWindow_gate hs) h.gate (some v)
    exact ⟨runProbe_inv h.pools (some v), hgate, views ++ [v], hviews.runProbe hactive v⟩

theorem PlayInv.start (h : PlayInv threads s) (clock : Option Timespec) :
    PlayInv threads { s with usm := usmAdaptiveBegin s.usm clock } := by
  obtain ⟨views, hviews⟩ := h.observed
  have hpool := usmAdaptiveBegin_pool s.usm clock
  exact ⟨usmAdaptiveBegin_inv h.pools clock,
    h.gate.congr hpool (usmAdaptiveBegin_amount s.usm clock), views,
    hviews.congr rfl rfl rfl fun hn => hpool.trans hn⟩

theorem PlayInv.fallback (h : PlayInv threads s) (be : Backend) (ok : Bool) :
    PlayInv threads (s.fallback backends be ok) := by
  obtain ⟨views, hviews⟩ := h.observed
  exact ⟨h.pools, h.gate, views, hviews.congr rfl rfl rfl id⟩

/-- The pass changes the mask's half of the state only. -/
theorem applyUsm_rest (threads : Pool → ℤ) (s : Playback Pool Plane) (planes : ℤ)
    (f : PlayFrame Pool Plane) :
    ∃ u, (s.applyUsm threads planes f).2 = { s with usm := u } ∧
      (UsmGate s.usm → AdaptiveInv threads s.usm → UsmGate u) := by
  unfold Playback.applyUsm
  dsimp only
  split
  · exact ⟨_, rfl, fun h _ => h⟩
  split
  · exact ⟨_, rfl, fun h _ => h⟩
  · refine ⟨_, rfl, fun h hinv => ?_⟩
    exact applyUsmIfEnabled_gate (hinv.flags s.usm.adaptive.retained s.usm.adaptive.framePending
      s.usm.adaptive.frameTimed s.usm.adaptive.frameStart f.scaled) h f.env

theorem PlayInv.apply (h : PlayInv threads s) (planes : ℤ) (f : PlayFrame Pool Plane) :
    PlayInv threads (s.applyUsm threads planes f).2 := by
  obtain ⟨views, hviews⟩ := h.observed
  obtain ⟨u, hu, hgate⟩ := applyUsm_rest threads s planes f
  refine ⟨applyUsm_inv h.pools planes f, ?_, views, ?_⟩
  · rw [hu]
    exact hgate h.gate h.pools
  · refine hviews.congr ?_ ?_ ?_ fun hn => ?_
    · rw [hu]
    · rw [hu]
    · rw [hu]
    · rw [applyUsm_off hn]
      exact hn

theorem PlayInv.filter (h : PlayInv threads s) (f : PlayFrame Pool Plane) :
    PlayInv threads (playFilter backends threads s f).sys :=
  playFilter_preserves (fun _ v hactive hs => hs.runProbe hactive v)
    (fun _ clock hs => hs.start clock) (fun _ be ok hs => hs.fallback be ok)
    (fun _ planes f hs => hs.apply planes f) h f

theorem PlayInv.run (h : PlayInv threads s) (backends : BackendEnv)
    (frames : List (PlayFrame Pool Plane)) :
    PlayInv threads (playRun backends threads s frames) :=
  playRun_preserves (fun _ f hs => hs.filter f) h frames

/-- Open leaves an empty window. -/
theorem autoupscaleOpen_accum {fmt : VideoFormat} {cfg : Config} {pc : ProbeConfig} {cores : ℤ}
    {o : OpenOutcome} {sys : FilterSys}
    (hopen : (autoupscaleOpen backends fmt cfg pc cores o).1 = some sys) :
    sys.probe.accum = ⟨0, 0, 0, 0, 0⟩ := by
  have hinit : ∀ (s : FilterSys) chroma pct ok,
      (AutoUpscale.initUsmPool s chroma pct ok).probe = s.probe := by
    intro s chroma pct ok
    unfold AutoUpscale.initUsmPool
    split
    · rfl
    · split <;> rfl
  unfold autoupscaleOpen at hopen
  dsimp only at hopen
  split at hopen
  · cases hopen
  split at hopen
  · cases hopen
  split at hopen
  · cases hopen
  split at hopen
  · cases hopen
  obtain rfl := Option.some.inj hopen
  show (AutoUpscale.initUsmPool _ _ _ _).probe.accum = _
  rw [hinit]

section Open

variable {fmt : VideoFormat} {cfg : Config} {pc : ProbeConfig} {cores : ℤ} {o : OpenOutcome}
  {opts : UsmOptions} {create : ℤ → ℤ → ℤ → ℤ → Option Pool} {plane : Plane}

theorem playOpen_playInv
    (hopen : playOpen backends fmt cfg pc cores o opts create plane = some s) :
    PlayInv threads s := by
  obtain ⟨sys, hsys, rfl⟩ := Option.map_eq_some_iff.mp hopen
  have haccum : (sys.playback (Adaptive.initUsmPool (usmConfig cfg sys.scaler cores opts) create
      plane)).probe.accum = ⟨0, 0, 0, 0, 0⟩ := autoupscaleOpen_accum hsys
  refine ⟨initUsmPool_inv _ create plane, initUsmPool_gate _ create plane, [], ?_, ?_, ?_, ?_⟩
  · rw [haccum]
    rfl
  · rw [haccum]
    exact Counted.zero
  · rw [haccum]
    exact Counted.zero
  · exact .inl ⟨by decide, rfl⟩

end Open

/-! ### Sixty frames do not wrap -/

section Totals

variable {c : ScalerCtx}

theorem viewLap_meanAtMost (c : ScalerCtx) (v : LumaView) : MeanAtMost lapMeanMax (viewLap c v) := by
  unfold viewLap
  split
  · exact .zero _
  · exact lapTally_meanAtMost _ _ _ _

theorem viewEdge_meanAtMost (c : ScalerCtx) (v : LumaView) :
    MeanAtMost edgeMeanMax (viewEdge c v) := by
  unfold viewEdge
  split
  · exact .zero _
  · exact edgeTally_meanAtMost _ _ _ _

/-- No more samples than twice the pixels of the largest frame. -/
def viewCountMax : ℕ := 2 * probeDimMax ^ 2

theorem viewLap_count (hw : c.srcW ≤ probeDimMax) (hh : c.srcH ≤ probeDimMax) (v : LumaView) :
    (viewLap c v).2 ≤ viewCountMax := by
  unfold viewLap
  split
  · exact Nat.zero_le _
  · calc (lapTally v.pixels v.pitch c.srcW c.srcH).2 ≤ probeDimMax * (probeDimMax * 1) :=
          lapTally_count _ _ hw hh
      _ ≤ viewCountMax := by decide

theorem viewEdge_count (hw : c.srcW ≤ probeDimMax) (hh : c.srcH ≤ probeDimMax) (v : LumaView) :
    (viewEdge c v).2 ≤ viewCountMax := by
  unfold viewEdge
  split
  · exact Nat.zero_le _
  · calc (edgeTally v.pixels v.pitch c.srcW c.srcH).2
        ≤ probeDimMax * (probeDimMax * 1) + probeDimMax * (probeDimMax * 1) :=
          edgeTally_count _ _ hw hh
      _ = viewCountMax := by decide

/-- A window's tally is below 2^64 when its views have bounded terms and counts. -/
theorem window_lt {f : LumaView → ℕ × ℕ} {b : ℕ} (hb : b ≤ lapMeanMax)
    (hmean : ∀ v, MeanAtMost b (f v)) (hcount : ∀ v, (f v).2 ≤ viewCountMax)
    {views : List LumaView} (hlen : views.length ≤ probeWindowFrames) :
    (views.map f).sum.1 < 2 ^ 64 ∧ (views.map f).sum.2 < 2 ^ 64 := by
  have hn : (views.map f).sum.2 ≤ probeWindowFrames * viewCountMax :=
    (count_list_sum_le hcount views).trans (Nat.mul_le_mul_right _ hlen)
  have hs : (views.map f).sum.1 ≤ lapMeanMax * (probeWindowFrames * viewCountMax) :=
    calc (views.map f).sum.1 ≤ b * (views.map f).sum.2 := MeanAtMost.list_sum hmean
      _ ≤ lapMeanMax * (probeWindowFrames * viewCountMax) := Nat.mul_le_mul hb hn
  exact ⟨hs.trans_lt (by decide), hn.trans_lt (by decide)⟩

/-- One view is a window of its own. -/
theorem view_lt {f : LumaView → ℕ × ℕ} {b : ℕ} (hb : b ≤ lapMeanMax)
    (hmean : ∀ v, MeanAtMost b (f v)) (hcount : ∀ v, (f v).2 ≤ viewCountMax) (v : LumaView) :
    (f v).1 < 2 ^ 64 ∧ (f v).2 < 2 ^ 64 := by
  have hone : [v].length ≤ probeWindowFrames := Nat.one_le_iff_ne_zero.mpr (by decide)
  have hlt := window_lt hb hmean hcount hone
  rwa [List.map_singleton, List.sum_singleton] at hlt

theorem metrics_exact (hw : s.scaler.srcW ≤ 32768) (hh : s.scaler.srcH ≤ 32768) (v : LumaView) :
    ((s.metrics v).lapSum.toNat = (viewLap s.scaler v).1 ∧
        (s.metrics v).lapN.toNat = (viewLap s.scaler v).2) ∧
      ((s.metrics v).edgeSum.toNat = (viewEdge s.scaler v).1 ∧
        (s.metrics v).edgeN.toNat = (viewEdge s.scaler v).2) := by
  obtain ⟨hlap, hedge⟩ := metrics_tallies (s := s) v
  have hlaplt := view_lt le_rfl (viewLap_meanAtMost s.scaler) (viewLap_count hw hh) v
  have hedgelt := view_lt (by decide) (viewEdge_meanAtMost s.scaler) (viewEdge_count hw hh) v
  exact ⟨hlap.exact hlaplt.1 hlaplt.2, hedge.exact hedgelt.1 hedgelt.2⟩

theorem Observed.length_le (h : Observed views s) : views.length ≤ probeWindowFrames := by
  rcases h.log with ⟨hlen, -⟩ | ⟨hlen, -⟩
  · exact hlen.le
  · exact hlen.le

theorem Observed.exact (h : Observed views s) (hw : s.scaler.srcW ≤ 32768)
    (hh : s.scaler.srcH ≤ 32768) :
    (s.probe.accum.lapSum.toNat = (views.map (viewLap s.scaler)).sum.1 ∧
        s.probe.accum.lapSamples.toNat = (views.map (viewLap s.scaler)).sum.2) ∧
      (s.probe.accum.edgeSum.toNat = (views.map (viewEdge s.scaler)).sum.1 ∧
        s.probe.accum.edgeSamples.toNat = (views.map (viewEdge s.scaler)).sum.2) := by
  have hlap := window_lt le_rfl (viewLap_meanAtMost s.scaler) (viewLap_count hw hh) h.length_le
  have hedge := window_lt (by decide) (viewEdge_meanAtMost s.scaler) (viewEdge_count hw hh)
    h.length_le
  exact ⟨h.lap.exact hlap.1 hlap.2, h.edge.exact hedge.1 hedge.2⟩

/-- A mean that is divided out is bounded like the terms. -/
theorem div64_le {sum n mean : UInt64} {t : ℕ × ℕ} {b : ℕ}
    (hexact : sum.toNat = t.1 ∧ n.toNat = t.2) (ht : MeanAtMost b t)
    (hmean : div64 sum n = some mean) : mean.toNat ≤ b := by
  unfold div64 at hmean
  split at hmean
  · cases hmean
  · obtain rfl := Option.some.inj hmean
    exact mean_le hexact.1 hexact.2 ht

end Totals

/-! ### The log read back -/

theorem Observed.views_eq (h : Observed views s) : observedViews s.probeLog = views := by
  rcases h.log with ⟨-, hlog⟩ | ⟨-, -, v, hlog, -⟩
  · rw [hlog]
    exact observedViews_map views
  · rw [hlog]
    unfold observedViews
    rw [List.filterMap_append]
    exact (congrArg (· ++ []) (observedViews_map views)).trans (List.append_nil views)

/-- Every event is a view or the one verdict. -/
theorem Observed.event (h : Observed views s) {e : ProbeEvent} (he : e ∈ s.probeLog) :
    (∃ v, e = .observed v) ∨ ∃ v, e = .verdict v ∧ (v.skip = true → s.usm.pool = none) := by
  have hobserved : e ∈ views.map .observed → ∃ v, e = .observed v := by
    intro hmem
    obtain ⟨v, -, hv⟩ := List.mem_map.mp hmem
    exact ⟨v, hv.symm⟩
  rcases h.log with ⟨-, hlog⟩ | ⟨-, -, v, hlog, hskip⟩ <;> rw [hlog] at he
  · exact .inl (hobserved he)
  · rcases List.mem_append.mp he with hmem | hmem
    · exact .inl (hobserved hmem)
    · exact .inr ⟨v, List.mem_singleton.mp hmem, hskip⟩

/-- A failing pass of a Filter call. -/
theorem playFilter_failed (backends : BackendEnv) (s : Playback Pool Plane)
    (f : PlayFrame Pool Plane)
    (hfail : (playFilter backends threads s f).status ≠ .ok)
    (hret : (playFilter backends threads s f).sys.usm.adaptive.retained = false) :
    (playFilter backends threads s f).sys.usm.pool = none := by
  rcases playFilter_move threads backends (P := fun _ => True) (fun _ _ _ _ => trivial)
    (fun _ _ _ => trivial) (s := s) trivial f with ⟨-, hok, -⟩ | ⟨s', planes, -, hcall⟩
  · exact absurd hok hfail
  · obtain ⟨hsys, hstatus⟩ := finish_sys threads s' planes f
    rw [hcall, hstatus] at hfail
    rw [hcall, hsys] at hret ⊢
    exact applyUsm_failed planes f hfail hret

/-- A frame that comes out once the grain verdict has fallen is not sharpened. -/
theorem PlayInv.grainFrame (h : PlayInv threads s) (backends : BackendEnv)
    (f : PlayFrame Pool Plane) {v : ProbeVerdict}
    (hv : .verdict v ∈ (playFilter backends threads s f).sys.probeLog) (hskip : v.skip = true)
    {p : Plane} (hp : (playFilter backends threads s f).output = some p) : p = f.scaled := by
  have hmove := playFilter_move threads backends (P := PlayInv threads)
    (fun _ v hactive hs => hs.runProbe hactive v) (fun _ clock hs => hs.start clock) h f
  rcases hmove with ⟨hnone, -⟩ | ⟨s', planes, hs', hcall⟩
  · exact absurd (hnone.symm.trans hp) nofun
  obtain ⟨u, hu, -⟩ := applyUsm_rest threads s' planes f
  rw [hcall, (finish_sys threads s' planes f).1, hu] at hv
  obtain ⟨views, hviews⟩ := hs'.observed
  have hoff : s'.usm.pool = none := by
    rcases hviews.event hv with ⟨w, hw⟩ | ⟨w, hw, hoff⟩ <;> cases hw
    exact hoff hskip
  rw [hcall] at hp
  exact finish_off_output hoff planes f hp

/-! ### The law -/

/-- The probe's window and the unsharp mask in a state of a playback. -/
structure ProbeGateLaw (backends : BackendEnv) (threads : Pool → ℤ) (s : Playback Pool Plane) :
    Prop where
  /-- At most sixty source views are observed, and the verdict is reached once,
  right after the sixtieth. -/
  window : let views := observedViews s.probeLog
    (views.length < 60 ∧ s.probeLog = views.map .observed) ∨
      (views.length = 60 ∧ ∃ v, s.probeLog = views.map .observed ++ [.verdict v])
  /-- The sums of each sweep and of the window are exact. -/
  exact : s.scaler.srcW ≤ 32768 → s.scaler.srcH ≤ 32768 →
    let lap := ((observedViews s.probeLog).map (viewLap s.scaler)).sum
    let edge := ((observedViews s.probeLog).map (viewEdge s.scaler)).sum
    (s.probe.accum.lapSum.toNat = lap.1 ∧ s.probe.accum.lapSamples.toNat = lap.2) ∧
      (s.probe.accum.edgeSum.toNat = edge.1 ∧ s.probe.accum.edgeSamples.toNat = edge.2) ∧
      ∀ v, ((s.metrics v).lapSum.toNat = (viewLap s.scaler v).1 ∧
          (s.metrics v).lapN.toNat = (viewLap s.scaler v).2) ∧
        ((s.metrics v).edgeSum.toNat = (viewEdge s.scaler v).1 ∧
          (s.metrics v).edgeN.toNat = (viewEdge s.scaler v).2)
  /-- So the means are those of squares up to 1020² and differences up to 255. -/
  means : s.scaler.srcW ≤ 32768 → s.scaler.srcH ≤ 32768 → ∀ mean,
    (div64 s.probe.accum.lapSum s.probe.accum.lapSamples = some mean → mean.toNat ≤ 1040400) ∧
      (div64 s.probe.accum.edgeSum s.probe.accum.edgeSamples = some mean → mean.toNat ≤ 255)
  /-- No division by zero was executed. -/
  noFault : .fault ∉ s.probeLog
  /-- There is a pool exactly while there is an amount. -/
  gate : s.usm.pool ≠ none ↔ 0 < s.usm.amountQ8
  /-- The grain verdict switches the mask off, for its own frame too. -/
  grain : ∀ v, .verdict v ∈ s.probeLog → v.skip = true → s.usm.pool = none
  grainFrame : ∀ f v, let c := playFilter backends threads s f
    .verdict v ∈ c.sys.probeLog → v.skip = true → ∀ p, c.output = some p → p = f.scaled
  /-- So does a failing pass that does not retain its pool. -/
  failure : ∀ f, let c := playFilter backends threads s f
    c.status ≠ .ok → c.sys.usm.adaptive.retained = false → c.sys.usm.pool = none
  /-- Once off, the mask stays off, and every picture that comes out holds the
  pixels that were scaled. -/
  off : s.usm.pool = none → ∀ later f, let s' := playRun backends threads s later
    s'.usm.pool = none ∧ s'.usm.amountQ8 = 0 ∧
      ∀ p, (playFilter backends threads s' f).output = some p → p = f.scaled

theorem PlayInv.law (h : PlayInv threads s) : ProbeGateLaw backends threads s := by
  obtain ⟨views, hviews⟩ := h.observed
  refine
    { window := ?_
      exact := fun hw hh => ?_
      means := fun hw hh mean =>
        ⟨div64_le (hviews.exact hw hh).1 (.list_sum (viewLap_meanAtMost _)),
          div64_le (hviews.exact hw hh).2 (.list_sum (viewEdge_meanAtMost _))⟩
      noFault := fun hfault => ?_
      gate := ?_
      grain := fun v hv hskip => ?_
      grainFrame := fun f v hv hskip p hp => h.grainFrame backends f hv hskip hp
      failure := fun f => playFilter_failed backends s f
      off := fun hoff later f => ?_ }
  · rw [hviews.views_eq]
    rcases hviews.log with hopen | ⟨hlen, -, v, hlog, -⟩
    · exact .inl hopen
    · exact .inr ⟨hlen, v, hlog⟩
  · rw [hviews.views_eq]
    exact ⟨(hviews.exact hw hh).1, (hviews.exact hw hh).2, metrics_exact hw hh⟩
  · rcases hviews.event hfault with ⟨v, hv⟩ | ⟨v, hv, -⟩ <;> cases hv
  · rcases h.gate with ⟨hpool, hamount⟩ | ⟨hpool, hamount⟩
    · exact iff_of_true hpool hamount
    · exact iff_of_false (not_not.mpr hpool) (by omega)
  · rcases hviews.event hv with ⟨w, hw⟩ | ⟨w, hw, hoff⟩ <;> cases hw
    exact hoff hskip
  · have hoff' : (playRun backends threads s later).usm.pool = none :=
      playRun_preserves (P := fun s => s.usm.pool = none) (fun _ f hs => playFilter_off hs f)
        hoff later
    refine ⟨hoff', ?_, fun p hp => playFilter_off_output hoff' f hp⟩
    rcases (h.run backends later).gate with ⟨hpool, -⟩ | ⟨-, hamount⟩
    · exact absurd hoff' hpool
    · exact hamount

/-- **The probe's window and the unsharp mask**, in every state of every playback:
whatever the options, the frames, their views, and what the backends and the
pools make of them. -/
theorem probe_gate_lifecycle (threads : Pool → ℤ) (backends : BackendEnv) {fmt : VideoFormat}
    {cfg : Config} {pc : ProbeConfig} {cores : ℤ} {o : OpenOutcome} {opts : UsmOptions}
    {create : ℤ → ℤ → ℤ → ℤ → Option Pool} {plane : Plane} {s₀ : Playback Pool Plane}
    (hopen : playOpen backends fmt cfg pc cores o opts create plane = some s₀)
    (frames : List (PlayFrame Pool Plane)) :
    ProbeGateLaw backends threads (playRun backends threads s₀ frames) :=
  ((playOpen_playInv hopen).run backends frames).law

/-- A 320x240 stream sharpened at 100%, whose pool fails on the first frame. -/
theorem probe_gate_lifecycle_failing :
    let backends : BackendEnv := ⟨true, fun _ _ _ => true⟩
    let env := usmPoolEnv 4096 960 halfStarted
    let grey : PlaneMemory.Memory := fun _ => 7
    let frame : PlayFrame UsmPool PlaneMemory.Memory :=
      ⟨some 3, some ⟨fun _ => 7, 320⟩, some 3, some ⟨1, 0⟩, .ok, grey, true, true, env⟩
    ∃ s₀, playOpen backends ⟨fourcc 'I' '4' '2' '0', 320, 240, 320, 240, 0, 0⟩
        ⟨0, 2, 720, 100, 0, 0, 0, 1, 1, 0⟩ ⟨3500, 1⟩ 8 ⟨true, fun _ => true, true⟩ ⟨8, 1⟩
        env.create grey = some s₀ ∧
      ProbeGateLaw backends UsmPool.nThreads (playRun backends UsmPool.nThreads s₀ [frame]) := by
  intro backends env grey frame
  have hopen : (playOpen backends ⟨fourcc 'I' '4' '2' '0', 320, 240, 320, 240, 0, 0⟩
      ⟨0, 2, 720, 100, 0, 0, 0, 1, 1, 0⟩ ⟨3500, 1⟩ 8 ⟨true, fun _ => true, true⟩ ⟨8, 1⟩
      env.create grey).isSome = true := by
    decide +kernel
  obtain ⟨s₀, hs₀⟩ := Option.isSome_iff_exists.mp hopen
  exact ⟨s₀, hs₀, probe_gate_lifecycle UsmPool.nThreads backends hs₀ [frame]⟩

end AutoUpscale
