/-
How many frames the plug-in may lose while a backend is in use.

A frame is lost for one of four reasons: an alignment drift of zimg, the end of
zimg, a trial pool or the pool in use of the mask leaving the picture uncertain.
Each is paid from what the state still has to give (`driftsLeft`,
`UsmSystem.lives`), and nothing gives it back.

- `applyUsmIfEnabled_lives`: a mask that fails loses a pool or its adaptation.
- `PluginFrame.Conforms.usable`: on the pictures that VLC hands out for the
  negotiated formats both views exist.
- **`plugin_loss_budget`**: from any point of a playback on, the usable frames that
  do not come out are at most what is left, 32 in all.
-/
import AutoUpscale.CropView
import AutoUpscale.PluginSystem

namespace AutoUpscale

open Adaptive PlaneMemory

/-! ### The mask fails twice at most -/

section Mask

variable {Pool Plane : Type*} {threads : Pool → ℤ} {s : UsmSystem Pool Plane}

/-- What the mask can still lose: the pool in use, and the trials. -/
def Adaptive.UsmSystem.lives (s : UsmSystem Pool Plane) : ℕ :=
  (if s.pool.isSome then 1 else 0) + if s.adaptive.enabled then 1 else 0

theorem lives_le_two (s : UsmSystem Pool Plane) : s.lives ≤ 2 := by
  unfold UsmSystem.lives
  split <;> split <;> decide

theorem disableUsm_lives (s : UsmSystem Pool Plane) : (Adaptive.disableUsm s).lives = 0 := by
  have hoff : (Adaptive.disableUsm s).adaptive.enabled = false := by
    show ((usmAdaptiveStop { s with amountQ8 := 0 }).destroyPool _).adaptive.enabled = false
    rw [destroyPool_adaptive]
    rfl
  have hpool : (Adaptive.disableUsm s).pool = none := rfl
  unfold UsmSystem.lives
  rw [hoff, hpool]
  rfl

/-- Without adaptation a pass leaves the pool in use, and adaptation off. -/
theorem usmAdaptiveApply_off_lives (h : AdaptiveInv threads s) (hoff : s.adaptive.enabled = false)
    (hpool : s.pool ≠ none) (env : FrameEnv Pool Plane) (amountQ8 : ℤ) :
    (usmAdaptiveApply threads s env amountQ8).2.lives = s.lives ∧
      (usmAdaptiveApply threads s env amountQ8).2.adaptive.retained = false := by
  obtain ⟨b, hb⟩ := Option.ne_none_iff_exists'.mp hpool
  obtain ⟨p, hp⟩ := h.owns.heap_of_pool hb
  rw [usmAdaptiveApply_off hoff hb hp]
  exact ⟨rfl, rfl⟩

/-- **A mask that fails costs a life.** -/
theorem applyUsmIfEnabled_lives (h : AdaptiveInv threads s) (env : FrameEnv Pool Plane) :
    (Adaptive.applyUsmIfEnabled threads s env).2.lives +
      (if (Adaptive.applyUsmIfEnabled threads s env).1 = .ok then 0 else 1) ≤ s.lives := by
  have hone : s.pool ≠ none → 1 ≤ s.lives := by
    intro hpool
    obtain ⟨b, hb⟩ := Option.ne_none_iff_exists'.mp hpool
    unfold UsmSystem.lives
    rw [hb]
    exact Nat.le_add_right _ _
  have htwo : s.pool ≠ none → s.adaptive.enabled = true → s.lives = 2 := by
    intro hpool hon
    obtain ⟨b, hb⟩ := Option.ne_none_iff_exists'.mp hpool
    unfold UsmSystem.lives
    rw [hb, hon]
    rfl
  cases applyUsmIfEnabled_exit threads s env with
  | off _ hout =>
    rw [hout]
    exact le_of_eq (Nat.add_zero _)
  | disabled _ hpool hfail _ hout =>
    rw [hout, disableUsm_lives]
    exact le_trans (by split <;> decide) (hone hpool)
  | kept _ hpool hcall hout =>
    rw [hout]
    cases hon : s.adaptive.enabled with
    | false =>
      obtain ⟨hlives, hretained⟩ := usmAdaptiveApply_off_lives h hon hpool env s.amountQ8
      have hok := hcall.resolve_right (by rw [hretained]; decide)
      rw [hok, hlives]
      exact le_rfl
    | true =>
      rw [htwo hpool hon]
      split
      · exact lives_le_two _
      · rename_i hfail
        -- a pass that fails and keeps its pool has stopped adapting
        have hoff := (usmAdaptiveApply_callLaw h hpool env s.amountQ8).retained
          (hcall.resolve_left hfail)
        have hle : (usmAdaptiveApply threads s env s.amountQ8).2.lives ≤ 1 := by
          unfold UsmSystem.lives
          rw [hoff]
          split <;> decide
        omega

end Mask

/-! ### The lives of a playback -/

section Playback

variable {Pool Plane : Type*} {threads : Pool → ℤ} {backends : BackendEnv}
  {s : Playback Pool Plane}

theorem runProbe_lives (s : Playback Pool Plane) (v : Option LumaView) :
    (s.runProbe v).usm.lives ≤ s.usm.lives := by
  refine runProbe_preserves (P := fun s' => s'.usm.lives ≤ s.usm.lives) ?_ ?_ le_rfl v
  · exact fun s' v h => h
  · intro s' h
    rcases closeWindow_usm s' with heq | heq
    · rw [heq]
      exact h
    · rw [heq, disableUsm_lives]
      exact Nat.zero_le _

theorem usmAdaptiveBegin_lives (u : UsmSystem Pool Plane) (clock : Option Timespec) :
    (usmAdaptiveBegin u clock).lives = u.lives := by
  obtain ⟨framePending, frameTimed, frameStart, hbegin⟩ := usmAdaptiveBegin_eq u clock
  rw [hbegin]
  rfl

theorem applyUsm_lives (h : AdaptiveInv threads s.usm) (planes : ℤ) (f : PlayFrame Pool Plane) :
    (s.applyUsm threads planes f).2.usm.lives +
      (if (s.applyUsm threads planes f).1 = .ok then 0 else 1) ≤ s.usm.lives := by
  unfold Playback.applyUsm
  dsimp only
  split
  · exact le_of_eq (Nat.add_zero _)
  split
  · exact le_of_eq (Nat.add_zero _)
  · exact applyUsmIfEnabled_lives (h.flags s.usm.adaptive.retained s.usm.adaptive.framePending
      s.usm.adaptive.frameTimed s.usm.adaptive.frameStart f.scaled) f.env

/-- A Filter call pays for the mask it reports. -/
theorem playFilter_lives (h : AdaptiveInv threads s.usm) (f : PlayFrame Pool Plane) :
    (playFilter backends threads s f).sys.usm.lives +
      (if (playFilter backends threads s f).status = .ok then 0 else 1) ≤ s.usm.lives := by
  have hmove := playFilter_move threads backends
    (P := fun s' => AdaptiveInv threads s'.usm ∧ s'.usm.lives ≤ s.usm.lives)
    (fun s' v _ h' => ⟨runProbe_inv h'.1 v, (runProbe_lives s' v).trans h'.2⟩)
    (fun s' clock h' => ⟨usmAdaptiveBegin_inv h'.1 clock,
      (usmAdaptiveBegin_lives s'.usm clock).trans_le h'.2⟩) ⟨h, le_rfl⟩ f
  rcases hmove with ⟨-, hstatus, s', ⟨-, hle⟩, hsys⟩ | ⟨s', planes, ⟨hinv, hle⟩, hcall⟩
  · have husm : (playFilter backends threads s f).sys.usm = s'.usm := by
      rcases hsys with hsys | ⟨be, ok, hsys⟩
      · rw [hsys]
      · rw [hsys]
        rfl
    rw [husm, hstatus]
    exact hle
  · obtain ⟨hsys, hstatus⟩ := finish_sys threads s' planes f
    rw [hcall, hsys, hstatus]
    exact (applyUsm_lives hinv planes f).trans hle

end Playback

/-! ### What zimg has left -/

/-- The frames that the backend may still drop: an alignment drift each, the last
one with the backend. -/
def driftsLeft : Option BackendPriv → ℕ
  | some (.zimg p) => zimgDriftFatalMisses - p.driftMisses
  | _ => 0

/-- The input picture has the planes that `ctx` reads and the output picture those
that it writes, all of whose lines libswscale would write. -/
def PluginFrame.usable (ctx : ScalerCtx) (f : PluginFrame) : Bool :=
  (zimgFrameViewsInit ctx f.input f.output).isSome && decide (f.swsLines = ctx.dstH)

section Drifts

variable {ctx : ScalerCtx} {workerBudget pref : ℤ} {s : Plugin}

/-- A usable frame that is dropped has drifted; it costs zimg one of its drifts,
or all that are left. -/
theorem backendProcess_drifts {be : Option Backend} {priv : Option BackendPriv}
    (h : PrivOf ctx workerBudget be priv) (hbe : be ≠ none) {f : PluginFrame}
    (hviews : f.usable ctx = true) :
    ((backendProcess ctx priv f).1 = .fatal → 1 ≤ driftsLeft priv) ∧
      ((backendProcess ctx priv f).1 = .transient →
        driftsLeft (backendProcess ctx priv f).2 + 1 ≤ driftsLeft priv) := by
  unfold PluginFrame.usable at hviews
  rw [Bool.and_eq_true, decide_eq_true_eq] at hviews
  cases h with
  | closed => exact absurd rfl hbe
  | @zimg p hreach live misses =>
    refine ⟨fun _ => Nat.sub_pos_of_lt misses, fun hstatus => ?_⟩
    have hmiss := (ZimgCall.misses p ⟨f.input, f.output, f.zimg⟩).2 hstatus
      (Option.isSome_iff_ne_none.mp hviews.1)
    show zimgDriftFatalMisses - (ZimgCall.process ctx p ⟨f.input, f.output, f.zimg⟩).priv.driftMisses
      + 1 ≤ zimgDriftFatalMisses - p.driftMisses
    rw [hmiss.1]
    omega
  | @swscale alloc context p hopen calls =>
    obtain ⟨fmt, hfmt, -⟩ := swsOpen_spec hopen
    obtain ⟨layout, hdesc, -⟩ := chromaToAVFmt_planes hfmt
    have hok := ((swsProcess_exit (p := (swsAfter ctx p calls).1)
      (c := ⟨f.input, f.output, f.swsLines⟩) hdesc).status.2).mpr hviews
    have hstatus : (backendProcess ctx (some (.swscale (swsAfter ctx p calls).1)) f).1 = .ok := hok
    rw [hstatus]
    exact ⟨by simp, by simp⟩

/-- A frame that the backend drops, usable or not, leaves it no more than it had. -/
theorem backendProcess_driftsLeft {be : Option Backend} {priv : Option BackendPriv}
    (h : PrivOf ctx workerBudget be priv) (f : PluginFrame) :
    driftsLeft (backendProcess ctx priv f).2 ≤ driftsLeft priv := by
  cases h with
  | closed => exact le_rfl
  | @zimg p hreach live misses =>
    exact Nat.sub_le_sub_left (ZimgCall.misses p ⟨f.input, f.output, f.zimg⟩).1 _
  | @swscale alloc context p hopen calls =>
    show driftsLeft ((swsProcess ctx (some (swsAfter ctx p calls).1) f.input f.output
      f.swsLines).priv.map BackendPriv.swscale) ≤ 0
    cases (swsProcess ctx (some (swsAfter ctx p calls).1) f.input f.output f.swsLines).priv <;>
      exact le_rfl

end Drifts

/-! ### What a frame costs -/

/-- A usable frame goes into a backend and does not come out. -/
def Plugin.loses (backends : BackendEnv) (s : Plugin) (f : PluginFrame) : Bool :=
  f.usable s.play.scaler && s.play.backend.isSome && (pluginFilter backends s f).output.isNone

/-- The frames lost in a row of Filter calls. -/
def pluginLosses (backends : BackendEnv) (s : Plugin) : List PluginFrame → ℕ
  | [] => 0
  | f :: fs =>
    (if s.loses backends f then 1 else 0) +
      pluginLosses backends (pluginFilter backends s f).sys fs

/-- What the plug-in has left to lose. -/
def Plugin.budget (s : Plugin) : ℕ := driftsLeft s.priv + s.play.usm.lives

section Budget

variable {ctx : ScalerCtx} {workerBudget pref : ℤ} {haveZimg : Bool} {s : Plugin}

/-- The USM half of a Filter call. -/
theorem pluginFilter_lives (backends : BackendEnv)
    (h : AdaptiveInv UsmPool.nThreads s.play.usm) (f : PluginFrame) :
    AdaptiveInv UsmPool.nThreads (pluginFilter backends s f).sys.play.usm ∧
      (pluginFilter backends s f).sys.play.usm.lives +
        (if (pluginFilter backends s f).usm = .ok then 0 else 1) ≤ s.play.usm.lives := by
  obtain ⟨c, hc⟩ : ∃ c, c = playFilter backends UsmPool.nThreads s.play
      (s.playFrame backends f) := ⟨_, rfl⟩
  have hcall : (pluginFilter backends s f).sys.play = c.sys ∧
      (pluginFilter backends s f).usm = c.status := by
    unfold pluginFilter
    rw [← hc]
    dsimp only
    split <;> exact ⟨rfl, rfl⟩
  rw [hcall.1, hcall.2, hc]
  exact ⟨playFilter_inv h _, playFilter_lives h _⟩

/-- **A lost frame is paid for**, and no frame gives anything back. -/
theorem PluginInv.budget (h : PluginInv ctx workerBudget pref s) (haveZimg : Bool)
    (husm : AdaptiveInv UsmPool.nThreads s.play.usm) (f : PluginFrame) :
    (pluginFilter (pluginBackends haveZimg) s f).sys.budget +
      (if s.loses (pluginBackends haveZimg) f then 1 else 0) ≤ s.budget := by
  obtain ⟨c, hc⟩ : ∃ c, c = pluginFilter (pluginBackends haveZimg) s f := ⟨_, rfl⟩
  obtain ⟨-, hlives⟩ := pluginFilter_lives (pluginBackends haveZimg) husm f
  obtain ⟨-, -, hfatal⟩ := h.filter haveZimg f
  have hmove := pluginFilter_move (pluginBackends haveZimg) s f
  unfold Plugin.loses
  rw [← hc] at hlives hfatal hmove ⊢
  rw [h.scaler]
  unfold Plugin.budget
  cases hmove with
  | idle hwhy _ _ _ hpriv _ =>
    -- without a picture or a backend nothing is lost
    have hno : (f.usable ctx && s.play.backend.isSome && c.output.isNone) = false := by
      rcases hwhy with hin | hbe | hout
      · have hviews : f.usable ctx = false := by
          unfold PluginFrame.usable zimgFrameViewsInit
          rw [hin]
          rfl
        rw [hviews]
        rfl
      · rw [hbe]
        simp
      · have hviews : f.usable ctx = false := by
          unfold PluginFrame.usable zimgFrameViewsInit
          rw [hout]
          split <;> rfl
        rw [hviews]
        rfl
    rw [hno, hpriv]
    simp only [Bool.false_eq_true, if_false]
    omega
  | transient be priv hbe hstatus _ _ _ hpriv _ =>
    have hdrop := backendProcess_driftsLeft h.priv f
    rw [← h.scaler, hstatus, ← hpriv] at hdrop
    cases hviews : f.usable ctx with
    | false =>
      simp only [Bool.false_and, Bool.false_eq_true, if_false]
      dsimp only at hdrop
      omega
    | true =>
      have hpaid := (backendProcess_drifts h.priv (by simp [hbe]) hviews).2
      rw [← h.scaler, hstatus] at hpaid
      have hpaid := hpaid rfl
      rw [← hpriv] at hpaid
      dsimp only at hpaid
      split <;> omega
  | fatal be priv mid hbe hstatus hprocess _ _ _ _ =>
    have hyes : c.isFatal = true := PluginCall.isFatal_eq hprocess
    obtain ⟨-, hpriv, -⟩ := hfatal hyes
    have hnone : driftsLeft c.sys.priv = 0 := by
      rw [hpriv]
      unfold afterFatal backendOpen
      split
      · rfl
      · cases swsOpen ctx f.fallback.swsAlloc f.fallback.swsContext <;> rfl
    cases hviews : f.usable ctx with
    | false =>
      simp only [Bool.false_and, Bool.false_eq_true, if_false]
      omega
    | true =>
      have hpaid := (backendProcess_drifts h.priv (by simp [hbe]) hviews).1
      rw [← h.scaler, hstatus] at hpaid
      have hpaid := hpaid rfl
      split <;> omega
  | ok be priv hbe hstatus _ hout hpriv _ =>
    have hdrop := backendProcess_driftsLeft h.priv f
    rw [← h.scaler, hstatus, ← hpriv] at hdrop
    dsimp only at hdrop
    by_cases hlost : c.usm = .outputUncertain
    · rw [if_neg (by rw [hlost]; decide)] at hlives
      split <;> omega
    · -- the mask has not touched the picture, or has sharpened it
      have hsome := hout.mpr hlost
      have hno : c.output.isNone = false := by
        obtain ⟨m, hm⟩ := Option.isSome_iff_exists.mp hsome
        rw [hm]
        rfl
      rw [hno, Bool.and_false]
      simp only [Bool.false_eq_true, if_false]
      omega

theorem PluginInv.losses_le (h : PluginInv ctx workerBudget pref s)
    (husm : AdaptiveInv UsmPool.nThreads s.play.usm) (frames : List PluginFrame) :
    pluginLosses (pluginBackends haveZimg) s frames ≤ s.budget := by
  induction frames generalizing s with
  | nil => exact Nat.zero_le _
  | cons f frames ih =>
    have hpaid := h.budget haveZimg husm f
    have hrest := ih (h.filter haveZimg f).1 (pluginFilter_lives _ husm f).1
    rw [pluginLosses]
    omega

theorem pluginAfter_adaptive (backends : BackendEnv)
    (husm : AdaptiveInv UsmPool.nThreads s.play.usm) (frames : List PluginFrame) :
    AdaptiveInv UsmPool.nThreads (pluginAfter backends s frames).play.usm := by
  induction frames generalizing s with
  | nil => exact husm
  | cons f frames ih => exact ih (pluginFilter_lives _ husm f).1

end Budget

/-! ### A host that keeps to the formats -/

/-- `SetOutputFormat` on the chroma of the input. -/
def setOutputFormat (ctx : ScalerCtx) : VideoFormat where
  chroma := ctx.chroma
  width := ctx.dstW.toNat
  height := ctx.dstH.toNat
  visibleWidth := ctx.dstW.toNat
  visibleHeight := ctx.dstH.toNat
  xOffset := 0
  yOffset := 0

/-- A context whose source is the target of `ctx`. -/
def ScalerCtx.ofOutput (ctx : ScalerCtx) : ScalerCtx :=
  { ctx with
    srcW := ctx.dstW
    srcH := ctx.dstH
    srcCodedW := ctx.dstW.toNat
    srcCodedH := ctx.dstH.toNat
    srcXOffset := 0
    srcYOffset := 0 }

/-- The picture has the planes of its format, and shows what `ctx` reads. -/
def Picture.Serves (pic : Picture) (fmt : VideoFormat) (ctx : ScalerCtx) : Prop :=
  (∃ layout, chromaDescriptor fmt.chroma = some layout ∧ PictureCovers pic fmt layout) ∧
    VisibleTakes pic ctx

/-- Pictures of the two negotiated formats, and a libswscale that writes every
line. -/
structure PluginFrame.Conforms (fmt : VideoFormat) (ctx : ScalerCtx) (f : PluginFrame) : Prop where
  input : ∃ pic, f.input = some pic ∧ pic.Serves fmt ctx
  output : ∃ pic, f.output = some pic ∧ pic.Serves (setOutputFormat ctx) ctx.ofOutput
  lines : f.swsLines = ctx.dstH

/-- A picture that covers its format has a view of a planned crop in it. -/
theorem Picture.Serves.viewable {fmt : VideoFormat} {ctx : ScalerCtx} {pic : Picture}
    (h : pic.Serves fmt ctx) (hopen : OpenPlanned ctx) (hchroma : fmt.chroma = ctx.chroma)
    (hcoded : ctx.srcCodedW = fmt.width ∧ ctx.srcCodedH = fmt.height)
    (hmax : (fmt.width : ℤ) ≤ intMax ∧ (fmt.height : ℤ) ≤ intMax)
    (hin : ctx.srcXOffset + ctx.srcW ≤ fmt.width ∧ ctx.srcYOffset + ctx.srcH ≤ fmt.height) :
    pictureViewInit (some pic) ctx.chroma (scalerSrcRegion ctx) ≠ none := by
  obtain ⟨⟨layout, hlayout, hpic⟩, hvw, hvh⟩ := h
  have hlayout' : chromaDescriptor ctx.chroma = some layout := by rw [← hchroma]; exact hlayout
  have hwpos := hopen.target.srcW_pos
  have hhpos := hopen.target.srcH_pos
  rw [ne_eq, pictureViewInit_eq_none_iff hpic.typed]
  unfold ViewRejected
  change ¬ (_ ∨ _ ∨ (ctx.srcW ≤ 0 ∨ ctx.srcH ≤ 0) ∨
    ((ctx.srcXOffset : ℤ) > intMax ∨ (ctx.srcYOffset : ℤ) > intMax) ∨
    (ctx.srcXOffset + ctx.srcW > ctx.srcCodedW ∨ ctx.srcYOffset + ctx.srcH > ctx.srcCodedH) ∨
    (pic.width < ctx.srcCodedW ∨ pic.height < ctx.srcCodedH) ∨
    (pic.visibleWidth ≠ 0 ∧ ctx.srcW > pic.visibleWidth) ∨
    (pic.visibleHeight ≠ 0 ∧ ctx.srcH > pic.visibleHeight) ∨ _)
  rintro (h | h | h | h | h | h | h | h | ⟨layout', hl, hplane⟩)
  · rw [hlayout'] at h
    cases h
  · exact h (hpic.chroma.trans hchroma)
  · omega
  · omega
  · omega
  · have hw := hpic.width_le
    have hh := hpic.height_le
    omega
  · omega
  · omega
  · obtain rfl := Option.some.inj (hlayout'.symm.trans hl)
    obtain hplanes | ⟨i, hi, hrej⟩ := hplane
    · have := hpic.planes
      omega
    · exact plane_not_rejected hopen hlayout' hpic hin.1 hin.2 hi hrej

/-- What planning says of the source it says of the target. -/
theorem OpenPlanned.ofOutput {ctx : ScalerCtx} (h : OpenPlanned ctx) : OpenPlanned ctx.ofOutput := by
  obtain ⟨hw, hh, -, -, hge, hge', hmax, hmax', heven, heven'⟩ := h.target
  dsimp only at hge hge' hmax hmax' heven heven'
  exact ⟨⟨hw.trans_le hge, hh.trans_le hge', hmax, hmax', le_rfl, le_rfl, hmax, hmax', heven,
    heven'⟩, fun _ _ _ _ => heven, fun _ _ _ _ => heven', fun _ _ _ _ => rfl, fun _ _ _ _ => rfl⟩

theorem PluginFrame.Conforms.usable {fmt : VideoFormat} {cfg : Config} {cores : ℤ}
    {ctx : ScalerCtx} (hplan : planOpen fmt cfg cores = some ctx) (hfmt : FormatNegotiable fmt)
    {f : PluginFrame} (h : f.Conforms fmt ctx) : f.usable ctx = true := by
  obtain ⟨⟨src, hsrc, hsrcServes⟩, ⟨dst, hdst, hdstServes⟩, hlines⟩ := h
  have hopen := planOpen_spec hplan
  obtain ⟨target, hctx⟩ := planOpen_eq hplan
  have hchroma : fmt.chroma = ctx.chroma := by rw [hctx]; rfl
  have hsrcView := hsrcServes.viewable hopen hchroma (by rw [hctx]; exact ⟨rfl, rfl⟩)
    ⟨hfmt.codedWidth_le, hfmt.codedHeight_le⟩ (by
      have hwpos := hopen.target.srcW_pos
      have hhpos := hopen.target.srcH_pos
      obtain ⟨hw, hh⟩ := resolveSourceCrop_within hfmt
      rw [hctx] at hwpos hhpos ⊢
      exact ⟨hw hwpos, hh hhpos⟩)
  obtain ⟨hwpos, hhpos, -, -, hge, hge', hmax, hmax', -, -⟩ := hopen.target
  have hmaxDim : maxDim ≤ intMax := by decide
  dsimp only at hge hge' hmax hmax'
  have hdstView := hdstServes.viewable hopen.ofOutput rfl ⟨rfl, rfl⟩
    (by constructor <;> dsimp only [setOutputFormat] <;> omega)
    (by constructor <;> dsimp only [setOutputFormat, ScalerCtx.ofOutput] <;> omega)
  unfold PluginFrame.usable
  rw [Bool.and_eq_true, decide_eq_true_eq]
  refine ⟨?_, hlines⟩
  obtain ⟨srcView, hsrcView⟩ := Option.ne_none_iff_exists'.mp hsrcView
  obtain ⟨dstView, hdstView⟩ := Option.ne_none_iff_exists'.mp hdstView
  have hregion : scalerSrcRegion ctx.ofOutput = scalerDstRegion ctx := rfl
  have hsame : ctx.ofOutput.chroma = ctx.chroma := rfl
  rw [hregion, hsame] at hdstView
  unfold zimgFrameViewsInit
  rw [hsrc, hdst, hsrcView]
  simp only [hdstView]
  rfl

/-! ### The budget of a playback -/

/-- Open leaves the mask as `InitUsmPool` does. -/
theorem pluginOpen_adaptive {backends : BackendEnv} {fmt : VideoFormat} {cfg : Config}
    {pc : ProbeConfig} {cores : ℤ} {o : PluginOpens} {u : UsmOptions} {m : Memory} {s : Plugin}
    (hopen : pluginOpen backends fmt cfg pc cores o u m = some s) :
    AdaptiveInv UsmPool.nThreads s.play.usm := by
  unfold pluginOpen at hopen
  split at hopen
  · cases hopen
  · obtain ⟨play, hplay, rfl⟩ := Option.map_eq_some_iff.mp hopen
    exact playOpen_inv hplay

/-- **What a playback may lose.**

`before` is any history from Open on, `frames` any continuation of it: of its
usable frames, those that go into a backend and do not come out are at most the
drifts that zimg has left and two failures of the mask. -/
theorem plugin_loss_budget {haveZimg : Bool} {fmt : VideoFormat} {cfg : Config}
    {pc : ProbeConfig} {cores : ℤ} {o : PluginOpens} {u : UsmOptions} {m : Memory} {s : Plugin}
    (hopen : pluginOpen (pluginBackends haveZimg) fmt cfg pc cores o u m = some s)
    (before frames : List PluginFrame) :
    ∃ ctx, planOpen fmt cfg cores = some ctx ∧
      let s' := pluginAfter (pluginBackends haveZimg) s before
      pluginLosses (pluginBackends haveZimg) s' frames ≤ s'.budget ∧
      s'.budget ≤ (if s'.play.backend = some .zimg then zimgDriftFatalMisses else 0) +
        ((if s'.play.usm.pool.isSome then 1 else 0) +
          if s'.play.usm.adaptive.enabled then 1 else 0) ∧
      ∀ f : PluginFrame, FormatNegotiable fmt → f.Conforms fmt ctx → f.usable ctx = true := by
  obtain ⟨ctx, hplan, hinv, -⟩ := pluginOpen_inv hopen
  have hinv' := hinv.after haveZimg before
  have husm := pluginAfter_adaptive (pluginBackends haveZimg)
    (pluginOpen_adaptive hopen) before
  refine ⟨ctx, hplan, hinv'.losses_le husm frames, Nat.add_le_add_right ?_ _,
    fun f hfmt hf => hf.usable hplan hfmt⟩
  have hpriv := hinv'.priv
  generalize (pluginAfter (pluginBackends haveZimg) s before).priv = priv at hpriv ⊢
  generalize (pluginAfter (pluginBackends haveZimg) s before).play.backend = be at hpriv ⊢
  cases hpriv with
  | closed => exact Nat.zero_le _
  | zimg _ _ _ => exact Nat.sub_le _ _
  | swscale _ _ => exact Nat.zero_le _

/-- A playback that has lost zimg then loses the pool of its mask, with the frame
it was to sharpen; after that every frame comes out. -/
theorem plugin_loss_budget_unstarted :
    ∃ s, pluginOpen (pluginBackends true) streamFmt streamCfg ⟨3500, 1⟩ 8 streamOpens ⟨8, 1⟩
        (fun _ => 7) = some s ∧
      pluginLosses (pluginBackends true) s [unstartedFrame, unstartedFrame, unstartedFrame] = 2 ∧
      ∃ ctx, planOpen streamFmt streamCfg 8 = some ctx ∧
        let s' := pluginAfter (pluginBackends true) s [unstartedFrame]
        pluginLosses (pluginBackends true) s' [unstartedFrame, unstartedFrame] ≤ s'.budget ∧
        s'.budget ≤ (if s'.play.backend = some .zimg then zimgDriftFatalMisses else 0) +
          ((if s'.play.usm.pool.isSome then 1 else 0) +
            if s'.play.usm.adaptive.enabled then 1 else 0) ∧
        ∀ f : PluginFrame, FormatNegotiable streamFmt → f.Conforms streamFmt ctx →
          f.usable ctx = true := by
  have hrun : (pluginOpen (pluginBackends true) streamFmt streamCfg ⟨3500, 1⟩ 8 streamOpens
      ⟨8, 1⟩ (fun _ => 7)).map (fun s => pluginLosses (pluginBackends true) s
        [unstartedFrame, unstartedFrame, unstartedFrame]) = some 2 := by
    decide +kernel
  obtain ⟨s, hs, hlosses⟩ := Option.map_eq_some_iff.mp hrun
  exact ⟨s, hs, hlosses, plugin_loss_budget hs [unstartedFrame] [unstartedFrame, unstartedFrame]⟩

end AutoUpscale
