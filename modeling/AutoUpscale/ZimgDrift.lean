/-
Storage alignment over a whole playback of the zimg backend.

`ZimgExit` lists the ways out of a frame in the order of the source; the first
frames choose the I/O mode by their storage, so only a frame after the first
start can drift.

* **`zimg_alignment_machine`** — from an opened backend, after any frames: graphs
  run on aligned zero-copy views only, the misses count the rejections, the
  thirtieth is fatal, and a broken pool refuses every frame.
-/
import AutoUpscale.ZimgCoverage

namespace AutoUpscale

open PlaneMemory

/-! ### Frames -/

/-- A call of `zimg_process`, with the outcomes of what it calls. -/
structure ZimgCall where
  src : Option Picture
  dst : Option Picture
  outcome : ZimgOutcome

section Calls

variable (ctx : ScalerCtx) (p : ZimgPriv) (c : ZimgCall)

def ZimgCall.process : ZimgProcessed := zimgProcess ctx p c.src c.dst c.outcome

/-- The backend after a sequence of frames. -/
def zimgAfter (calls : List ZimgCall) : ZimgPriv :=
  calls.foldl (fun p c => (c.process ctx p).priv) p

/-- The frame reaches the start of the pool. -/
def ZimgCall.starts : Bool :=
  !p.pool.broken && match zimgFrameViewsInit ctx c.src c.dst with
    | none => false
    | some (srcView, dstView) =>
      zimgFrameIoSafe (zimgPrepareFirstFrameIo p ctx srcView dstView) srcView dstView &&
        !p.pool.lazyDone && !p.pool.lazyFailed

/-- The frame is rejected for its alignment. -/
def ZimgCall.drifts : Bool :=
  !p.pool.broken && match zimgFrameViewsInit ctx c.src c.dst with
    | none => false
    | some (srcView, dstView) =>
      !zimgFrameIoSafe (zimgPrepareFirstFrameIo p ctx srcView dstView) srcView dstView

end Calls

/-- The frames of a run that are rejected for their alignment. -/
def driftRejections (ctx : ScalerCtx) (p : ZimgPriv) : List ZimgCall → ℕ
  | [] => 0
  | c :: calls =>
    (if c.drifts ctx p then 1 else 0) + driftRejections ctx (c.process ctx p).priv calls

/-- Every address and pitch is a multiple of `ZIMG_BUFFER_ALIGN`. -/
def PlaneView.Aligned (v : PlaneView) : Prop :=
  ∀ q, v.data q % zimgBufferAlign = 0 ∧ v.pitch q % zimgBufferAlign = 0

/-- The same of the buffer a graph is given. -/
def ImageBuffer.Aligned (b : ImageBuffer) : Prop :=
  ∀ q, b.data q % zimgBufferAlign = 0 ∧ b.stride q % zimgBufferAlign = 0

/-! ### The exits of a frame -/

section Exits

variable {ctx : ScalerCtx} {p : ZimgPriv} {c : ZimgCall}

/-- The exits of a frame, in the order of the source. -/
inductive ZimgExit (ctx : ScalerCtx) (p : ZimgPriv) (c : ZimgCall) : Prop
  | broken (hbroken : p.pool.broken = true)
      (hcall : c.process ctx p = ⟨.fatal, p, false, false⟩)
  | badViews (hbroken : p.pool.broken = false)
      (hviews : zimgFrameViewsInit ctx c.src c.dst = none)
      (hcall : c.process ctx p = ⟨.transient, p, false, false⟩)
  | drift (srcView dstView : PictureView) (hbroken : p.pool.broken = false)
      (hviews : zimgFrameViewsInit ctx c.src c.dst = some (srcView, dstView))
      (hdrift : zimgFrameIoSafe (zimgPrepareFirstFrameIo p ctx srcView dstView) srcView
        dstView = false)
      (hcall : c.process ctx p =
        zimgNoteAlignmentDrift (zimgPrepareFirstFrameIo p ctx srcView dstView) c.outcome)
  | startFailed (srcView dstView : PictureView) (hbroken : p.pool.broken = false)
      (hviews : zimgFrameViewsInit ctx c.src c.dst = some (srcView, dstView))
      (hsafe : zimgFrameIoSafe (zimgPrepareFirstFrameIo p ctx srcView dstView) srcView
        dstView = true)
      (hstart : (zimgEnsureLazyInit (zimgPrepareFirstFrameIo p ctx srcView dstView)
        c.outcome).1 = false)
      (hcall : c.process ctx p = ⟨.fatal, (zimgEnsureLazyInit
        (zimgPrepareFirstFrameIo p ctx srcView dstView) c.outcome).2, false, false⟩)
  | dispatched (srcView dstView : PictureView) (hbroken : p.pool.broken = false)
      (hviews : zimgFrameViewsInit ctx c.src c.dst = some (srcView, dstView))
      (hsafe : zimgFrameIoSafe (zimgPrepareFirstFrameIo p ctx srcView dstView) srcView
        dstView = true)
      (hstart : (zimgEnsureLazyInit (zimgPrepareFirstFrameIo p ctx srcView dstView)
        c.outcome).1 = true)
      (hcall : c.process ctx p = zimgDispatchAndWait (pointWorkers (zimgEnsureLazyInit
        (zimgPrepareFirstFrameIo p ctx srcView dstView) c.outcome).2 srcView dstView) c.outcome)

theorem zimgProcess_exit (ctx : ScalerCtx) (p : ZimgPriv) (c : ZimgCall) : ZimgExit ctx p c := by
  have hcall : c.process ctx p = zimgProcess ctx p c.src c.dst c.outcome := rfl
  unfold zimgProcess at hcall
  by_cases hbroken : p.pool.broken = true
  · exact .broken hbroken (by rw [hcall, if_pos hbroken])
  rw [if_neg hbroken] at hcall
  have hbroken : p.pool.broken = false := by simpa using hbroken
  cases hviews : zimgFrameViewsInit ctx c.src c.dst with
  | none => exact .badViews hbroken hviews (by rw [hcall, hviews])
  | some views =>
    obtain ⟨srcView, dstView⟩ := views
    simp only [hviews] at hcall
    cases hsafe : zimgFrameIoSafe (zimgPrepareFirstFrameIo p ctx srcView dstView) srcView
        dstView with
    | false =>
      rw [if_pos hsafe] at hcall
      exact .drift srcView dstView hbroken hviews hsafe hcall
    | true =>
      rw [if_neg (by simp [hsafe])] at hcall
      cases hstart : (zimgEnsureLazyInit (zimgPrepareFirstFrameIo p ctx srcView dstView)
          c.outcome).1 with
      | false =>
        rw [if_pos hstart] at hcall
        exact .startFailed srcView dstView hbroken hviews hsafe hstart hcall
      | true =>
        rw [if_neg (by simp [hstart])] at hcall
        exact .dispatched srcView dstView hbroken hviews hsafe hstart hcall

/-- Before the first start the plan follows the frame's storage. -/
theorem prepareFirstFrameIo_safe (hdone : p.pool.lazyDone = false)
    (hfailed : p.pool.lazyFailed = false) (srcView dstView : PictureView) :
    zimgFrameIoSafe (zimgPrepareFirstFrameIo p ctx srcView dstView) srcView dstView = true := by
  unfold zimgPrepareFirstFrameIo
  rw [if_neg (by simp [hdone, hfailed])]
  unfold zimgFrameIoSafe resolveIoPlan zimgBuildIoReq
  cases zimgViewAligned srcView <;> cases zimgViewAligned dstView <;> simp

theorem prepareFirstFrameIo_started (h : p.pool.lazyDone = true ∨ p.pool.lazyFailed = true)
    (srcView dstView : PictureView) : zimgPrepareFirstFrameIo p ctx srcView dstView = p := by
  unfold zimgPrepareFirstFrameIo
  rw [if_pos h]

theorem prepareFirstFrameIo_rest (ctx : ScalerCtx) (p : ZimgPriv) (srcView dstView : PictureView) :
    (zimgPrepareFirstFrameIo p ctx srcView dstView).pool = p.pool ∧
      (zimgPrepareFirstFrameIo p ctx srcView dstView).driftMisses = p.driftMisses := by
  unfold zimgPrepareFirstFrameIo
  split <;> exact ⟨rfl, rfl⟩

/-- A frame that drifts comes after a start, and finds the plan as it was. -/
theorem drift_started {srcView dstView : PictureView}
    (h : zimgFrameIoSafe (zimgPrepareFirstFrameIo p ctx srcView dstView) srcView dstView = false) :
    (p.pool.lazyDone = true ∨ p.pool.lazyFailed = true) ∧
      zimgPrepareFirstFrameIo p ctx srcView dstView = p := by
  have hattempt : p.pool.lazyDone = true ∨ p.pool.lazyFailed = true := by
    by_contra hnone
    simp only [not_or, Bool.not_eq_true] at hnone
    have hsafe : zimgFrameIoSafe (zimgPrepareFirstFrameIo p ctx srcView dstView) srcView
      dstView = true := prepareFirstFrameIo_safe hnone.1 hnone.2 srcView dstView
    exact absurd (hsafe.symm.trans h) (by decide)
  exact ⟨hattempt, prepareFirstFrameIo_started hattempt _ _⟩

/-! ### What a start and a dispatch leave -/

theorem zimgHooks_misses (o : ZimgAllocs) (log : List PoolEvent) (p : ZimgPriv) :
    (log.foldl (zimgPoolHook o) p).driftMisses = p.driftMisses := by
  have hrelease (q : ZimgPriv) (i : ℕ) : (zimgPoolRelease q i).driftMisses = q.driftMisses := rfl
  have hstep (q : ZimgPriv) (e : PoolEvent) : (zimgPoolHook o q e).driftMisses = q.driftMisses := by
    cases e with
    | prepare ok =>
      simp only [zimgPoolHook, allocScratchBuffers]
      split_ifs <;> rfl
    | construct i ok =>
      simp only [zimgPoolHook, zimgPoolConstruct]
      split
      · rfl
      · split <;> rfl
    | release i => exact hrelease q i
    | _ => rfl
  induction log generalizing p with
  | nil => rfl
  | cons e log ih => exact (ih _).trans (hstep p e)

/-- A start is remembered, whether it fails or not. -/
theorem ensureStarted_attempted {q : WorkerPool} (hdone : q.lazyDone = false)
    (hfailed : q.lazyFailed = false) (o : StartOutcome) :
    (workerPoolEnsureStarted q o).pool.lazyDone = true ∨
      (workerPoolEnsureStarted q o).pool.lazyFailed = true := by
  unfold workerPoolEnsureStarted
  rw [if_neg (by simp [hdone]), if_neg (by simp [hfailed])]
  simp only
  split
  · exact .inr rfl
  · exact .inl rfl

/-- What `zimg_ensure_lazy_init` leaves of the plan, the misses and the flags. -/
structure EnsureLaw (p : ZimgPriv) (r : Bool × ZimgPriv) : Prop where
  plan : r.2.plan = p.plan
  misses : r.2.driftMisses = p.driftMisses
  attempted : r.2.pool.lazyDone = true ∨ r.2.pool.lazyFailed = true
  same : p.pool.lazyDone = true ∨ p.pool.lazyFailed = true → r.2 = p
  done : p.pool.lazyDone = true → r.1 = true

theorem zimgEnsureLazyInit_law (p : ZimgPriv) (o : ZimgOutcome) :
    EnsureLaw p (zimgEnsureLazyInit p o) := by
  unfold zimgEnsureLazyInit
  split
  · rename_i hdone
    exact ⟨rfl, rfl, .inl hdone, fun _ => rfl, fun _ => rfl⟩
  rename_i hdone
  split
  · rename_i hfailed
    exact ⟨rfl, rfl, .inr hfailed, fun _ => rfl, fun h => absurd h hdone⟩
  rename_i hfailed
  exact ⟨(zimgHooks_frame o.allocs _ _).plan, zimgHooks_misses o.allocs _ _,
    ensureStarted_attempted rfl rfl _, fun h => (h.elim hdone hfailed).elim,
    fun h => absurd h hdone⟩

theorem pointWorkers_rest (p : ZimgPriv) (srcView dstView : PictureView) :
    (pointWorkers p srcView dstView).plan = p.plan ∧
      (pointWorkers p srcView dstView).driftMisses = p.driftMisses ∧
      (pointWorkers p srcView dstView).pool = p.pool := by
  rw [pointWorkers_eq]
  exact ⟨rfl, rfl, rfl⟩

/-- What `zimg_dispatch_and_wait` does. -/
structure DispatchedLaw (p : ZimgPriv) (o : ZimgOutcome) (r : ZimgProcessed) : Prop where
  pool : StopFrame p.pool r.priv.pool
  rest : r.priv = { p with pool := r.priv.pool }
  dispatched : r.dispatched = true
  /-- A failed barrier or cell is fatal and ends the pool; nothing else is. -/
  failed : r.status = if r.completed = false ∨ ∃ i < p.pool.nWorkers, o.rc i ≠ 0 then .fatal else .ok
  breaks : r.status = .fatal → r.priv.pool.broken = true

theorem zimgDispatchAndWait_law (p : ZimgPriv) (o : ZimgOutcome) :
    DispatchedLaw p o (zimgDispatchAndWait p o) := by
  have hframe := workerPoolDispatch_frame p.pool o.gateOk o.stop
  have hn : (workerPoolDispatch p.pool o.gateOk o.stop).pool.nWorkers = p.pool.nWorkers := by
    rw [hframe.rest]
  have hany (n : ℕ) : ((List.range n).any fun i => decide (o.rc i ≠ 0)) = true ↔
      ∃ i < n, o.rc i ≠ 0 := by simp
  unfold zimgDispatchAndWait
  simp only
  cases hd : (workerPoolDispatch p.pool o.gateOk o.stop).ok with
  | false =>
    rw [if_pos rfl]
    exact ⟨hframe, rfl, rfl, by simp, fun _ => (workerPoolDispatch_failed hd).2.2⟩
  | true =>
    rw [if_neg (by decide)]
    unfold zimgCheckWorkerResults
    split
    · rename_i hrc
      refine ⟨hframe.trans (workerPoolPoison_frame _ o.stop), rfl, rfl, ?_,
        fun _ => workerPoolPoison_broken _ o.stop⟩
      rw [if_pos (.inr ((hany _).mp (hn ▸ hrc)))]
    · rename_i hrc
      refine ⟨hframe, rfl, rfl, ?_, by simp⟩
      rw [if_neg]
      rintro (hf | hex)
      · cases hf
      · exact hrc ((hany _).mpr (hn.symm ▸ hex))

/-! ### One frame -/

/-- What one frame does to the miss count, the flags and the plan. -/
structure FrameLaw (ctx : ScalerCtx) (p : ZimgPriv) (c : ZimgCall) (r : ZimgProcessed) :
    Prop where
  misses : r.priv.driftMisses = p.driftMisses + if c.drifts ctx p then 1 else 0
  /-- Only a start sets the flags, and nothing clears them. -/
  started : r.priv.pool.lazyDone = true ∨ r.priv.pool.lazyFailed = true ↔
    (p.pool.lazyDone = true ∨ p.pool.lazyFailed = true) ∨ c.starts ctx p = true
  done : p.pool.lazyDone = true → r.priv.pool.lazyDone = true
  plan : p.pool.lazyDone = true ∨ p.pool.lazyFailed = true → r.priv.plan = p.plan
  budget : r.priv.pool.broken = false → p.driftMisses < zimgDriftFatalMisses →
    r.priv.driftMisses < zimgDriftFatalMisses
  drift : c.drifts ctx p = true →
    (p.pool.lazyDone = true ∨ p.pool.lazyFailed = true) ∧ r.dispatched = false ∧
      if p.driftMisses + 1 < zimgDriftFatalMisses then r.status = .transient
      else r.status = .fatal ∧ r.priv.pool.broken = true

theorem stopFrame_flags {q q' : WorkerPool} (h : StopFrame q q') :
    q'.lazyDone = q.lazyDone ∧ q'.lazyFailed = q.lazyFailed := by
  rw [h.rest]
  exact ⟨rfl, rfl⟩

theorem zimgNoteAlignmentDrift_law (p : ZimgPriv) (o : ZimgOutcome) :
    let r := zimgNoteAlignmentDrift p o
    StopFrame p.pool r.priv.pool ∧ r.priv.plan = p.plan ∧
      r.priv.driftMisses = p.driftMisses + 1 ∧ r.dispatched = false ∧
      if p.driftMisses + 1 < zimgDriftFatalMisses then r.status = .transient
      else r.status = .fatal ∧ r.priv.pool.broken = true := by
  intro r
  have hr : r = zimgNoteAlignmentDrift p o := rfl
  unfold zimgNoteAlignmentDrift at hr
  simp only at hr
  split at hr <;> rename_i hmiss <;> rw [hr]
  · refine ⟨workerPoolPoison_frame p.pool o.stop, rfl, rfl, rfl, ?_⟩
    rw [if_neg (by omega)]
    exact ⟨rfl, workerPoolPoison_broken p.pool o.stop⟩
  · refine ⟨.refl p.pool, rfl, rfl, rfl, ?_⟩
    rw [if_pos (by omega)]

theorem zimgProcess_frameLaw (ctx : ScalerCtx) (p : ZimgPriv) (c : ZimgCall) :
    FrameLaw ctx p c (c.process ctx p) := by
  cases zimgProcess_exit ctx p c with
  | broken hbroken hcall =>
    have hdrifts : c.drifts ctx p = false := by simp [ZimgCall.drifts, hbroken]
    have hstarts : c.starts ctx p = false := by simp [ZimgCall.starts, hbroken]
    rw [hcall]
    exact ⟨by simp [hdrifts], by simp [hstarts], id, fun _ => rfl, fun _ h => h,
      by simp [hdrifts]⟩
  | badViews hbroken hviews hcall =>
    have hdrifts : c.drifts ctx p = false := by simp [ZimgCall.drifts, hviews]
    have hstarts : c.starts ctx p = false := by simp [ZimgCall.starts, hviews]
    rw [hcall]
    exact ⟨by simp [hdrifts], by simp [hstarts], id, fun _ => rfl, fun _ h => h,
      by simp [hdrifts]⟩
  | drift srcView dstView hbroken hviews hdrift hcall =>
    -- storage has drifted: a miss more, and no graph is entered
    obtain ⟨hattempt, hprep⟩ := drift_started hdrift
    have hdrifts : c.drifts ctx p = true := by simp [ZimgCall.drifts, hbroken, hviews, hdrift]
    have hstarts : c.starts ctx p = false := by simp [ZimgCall.starts, hviews, hdrift]
    rw [hcall, hprep]
    obtain ⟨hframe, hplan, hmisses, hdispatched, hstatus⟩ := zimgNoteAlignmentDrift_law p c.outcome
    obtain ⟨hdone, hfailed⟩ := stopFrame_flags hframe
    refine ⟨by rw [hmisses, if_pos hdrifts], by rw [hdone, hfailed]; simp [hstarts],
      fun h => hdone.trans h, fun _ => hplan, fun hb _ => ?_, fun _ =>
        ⟨hattempt, hdispatched, hstatus⟩⟩
    rw [hmisses]
    by_contra hmax
    rw [if_neg hmax] at hstatus
    exact absurd (hb.symm.trans hstatus.2) (by decide)
  | startFailed srcView dstView hbroken hviews hsafe hstart hcall =>
    -- a pool that is up does not fail to start, so this one was not
    have hdrifts : c.drifts ctx p = false := by simp [ZimgCall.drifts, hviews, hsafe]
    have hlaw := zimgEnsureLazyInit_law (zimgPrepareFirstFrameIo p ctx srcView dstView) c.outcome
    obtain ⟨hpool, hmisses⟩ := prepareFirstFrameIo_rest ctx p srcView dstView
    have hdone : p.pool.lazyDone = false := by
      by_contra hdone
      have := hlaw.done (by rw [hpool]; simpa using hdone)
      exact absurd (hstart.symm.trans this) (by decide)
    rw [hcall]
    refine ⟨by simp [hdrifts, hlaw.misses, hmisses], ?_, by simp [hdone], fun h => ?_,
      fun _ h => by rwa [hlaw.misses, hmisses], by simp [hdrifts]⟩
    · refine iff_of_true hlaw.attempted ?_
      cases hfailed : p.pool.lazyFailed with
      | true => exact .inl (.inr rfl)
      | false => exact .inr (by simp [ZimgCall.starts, hbroken, hviews, hsafe, hdone, hfailed])
    · rw [hlaw.plan, prepareFirstFrameIo_started h]
  | dispatched srcView dstView hbroken hviews hsafe hstart hcall =>
    -- neither the views nor the dispatch touch the plan or the misses
    have hdrifts : c.drifts ctx p = false := by simp [ZimgCall.drifts, hviews, hsafe]
    have hlaw := zimgEnsureLazyInit_law (zimgPrepareFirstFrameIo p ctx srcView dstView) c.outcome
    obtain ⟨hpool, hmisses⟩ := prepareFirstFrameIo_rest ctx p srcView dstView
    obtain ⟨hpplan, hpmisses, hppool⟩ := pointWorkers_rest (zimgEnsureLazyInit
      (zimgPrepareFirstFrameIo p ctx srcView dstView) c.outcome).2 srcView dstView
    have hdisp := zimgDispatchAndWait_law (pointWorkers (zimgEnsureLazyInit
      (zimgPrepareFirstFrameIo p ctx srcView dstView) c.outcome).2 srcView dstView) c.outcome
    rw [hcall]
    obtain ⟨hdone, hfailed⟩ := stopFrame_flags hdisp.pool
    have hmiss : (zimgDispatchAndWait (pointWorkers (zimgEnsureLazyInit
        (zimgPrepareFirstFrameIo p ctx srcView dstView) c.outcome).2 srcView dstView)
        c.outcome).priv.driftMisses = p.driftMisses := by
      rw [hdisp.rest, hpmisses, hlaw.misses, hmisses]
    refine ⟨by simp [hdrifts, hmiss], ?_, fun h => ?_, fun h => ?_,
      fun _ h => by rwa [hmiss], by simp [hdrifts]⟩
    · rw [hdone, hfailed, hppool]
      refine iff_of_true hlaw.attempted ?_
      cases hd : p.pool.lazyDone with
      | true => exact .inl (.inl rfl)
      | false =>
        cases hf : p.pool.lazyFailed with
        | true => exact .inl (.inr rfl)
        | false => exact .inr (by simp [ZimgCall.starts, hbroken, hviews, hsafe, hd, hf])
    · rw [hdone, hppool, hlaw.same (.inl (by rw [hpool]; exact h)), hpool]
      exact h
    · rw [hdisp.rest, hpplan, hlaw.plan, prepareFirstFrameIo_started h]

/-! ### Alignment -/

theorem picturePlanes_aligned {subW subH : ℕ} {swap : Bool} {pic : Option Picture}
    {region : PictureRegion} {v : PictureView}
    (hchroma : chromaToZimg ctx.chroma = some (subW, subH, swap))
    (hview : pictureViewInit pic ctx.chroma region = some v) (h : zimgViewAligned v = true) :
    (picturePlanes swap v).Aligned := by
  intro q
  obtain ⟨pic', layout, -, hdesc, hcount, -⟩ := pictureViewInit_plane hview
  obtain ⟨layout', hdesc', hthree, -⟩ := chromaToZimg_planes hchroma
  obtain rfl : layout' = layout := Option.some.inj (hdesc'.symm.trans hdesc)
  have hlt := (chromaPhysicalPlaneIndex_lt q swap).1
  have hplane := List.all_eq_true.mp h (chromaPhysicalPlaneIndex q.index swap)
    (List.mem_range.mpr (by omega))
  simpa [picturePlanes] using hplane

/-- Whole rows keep the alignment. -/
theorem setBufPlanes_aligned {v : PlaneView} (h : v.Aligned) (offsetRows : Plane → ℤ) :
    (setBufPlanes v offsetRows).Aligned := by
  intro q
  obtain ⟨hdata, hpitch⟩ := h q
  refine ⟨?_, hpitch⟩
  have hpitch : (v.pitch q).toNat % zimgBufferAlign = 0 := by
    unfold zimgBufferAlign at hpitch ⊢
    omega
  exact Nat.mod_eq_zero_of_dvd ((Nat.dvd_of_mod_eq_zero hdata).add
    ((Nat.dvd_of_mod_eq_zero hpitch).mul_left _))

/-- The zero-copy views of a backend's cells, and the buffers their graphs get,
are aligned. -/
def ZimgPriv.GraphsAligned (p : ZimgPriv) : Prop :=
  ∀ i < p.pool.nWorkers,
    (p.plan.srcZerocopy = true → (p.workers i).src.Aligned ∧ (p.workers i).sb.Aligned) ∧
    (p.plan.dstZerocopy = true → (p.workers i).dst.Aligned ∧ (p.workers i).db.Aligned)

theorem dispatched_aligned {workerBudget : ℤ} (h : ZimgInv ctx workerBudget p)
    (hd : (c.process ctx p).dispatched = true) : (c.process ctx p).priv.GraphsAligned := by
  cases zimgProcess_exit ctx p c with
  | broken _ hcall => simp [hcall] at hd
  | badViews _ _ hcall => simp [hcall] at hd
  | drift srcView dstView _ _ _ hcall =>
    rw [hcall, (zimgNoteAlignmentDrift_law _ c.outcome).2.2.2.1] at hd
    cases hd
  | startFailed _ _ _ _ _ _ hcall => simp [hcall] at hd
  | dispatched srcView dstView _ hviews hsafe _ hcall =>
    obtain ⟨hsrcView, hdstView⟩ := zimgFrameViewsInit_eq hviews
    have hlaw := zimgEnsureLazyInit_law (zimgPrepareFirstFrameIo p ctx srcView dstView) c.outcome
    have hinit := (zimgEnsureLazyInit_inv (zimgPrepareFirstFrameIo_inv h srcView dstView)
      c.outcome).1
    obtain ⟨hinv, hpointed⟩ := pointWorkers_inv hinit srcView dstView
    obtain ⟨hpplan, -, -⟩ := pointWorkers_rest (zimgEnsureLazyInit
      (zimgPrepareFirstFrameIo p ctx srcView dstView) c.outcome).2 srcView dstView
    set q := pointWorkers (zimgEnsureLazyInit (zimgPrepareFirstFrameIo p ctx srcView dstView)
      c.outcome).2 srcView dstView
    have hdisp := zimgDispatchAndWait_law q c.outcome
    -- the plan the frame was judged by is the plan its cells were built for
    have hplan : q.plan = (zimgPrepareFirstFrameIo p ctx srcView dstView).plan :=
      hpplan.trans hlaw.plan
    rw [hcall, hdisp.rest]
    intro i hi
    have hi : i < q.pool.nWorkers := by
      rw [hdisp.pool.rest] at hi
      exact hi
    have hpoint := hpointed i hi
    simp only [zimgFrameIoSafe, Bool.and_eq_true, Bool.or_eq_true, Bool.not_eq_true'] at hsafe
    refine ⟨fun hz => ?_, fun hz => ?_⟩
    · have hal : (q.workers i).src.Aligned := by
        rw [hpoint.src hz]
        refine picturePlanes_aligned hinv.chroma hsrcView (hsafe.1.resolve_left fun hf => ?_)
        exact absurd (hf.symm.trans (hplan ▸ hz)) (by decide)
      exact ⟨hal, setBufPlanes_aligned hal _⟩
    · have hal : (q.workers i).dst.Aligned := by
        rw [hpoint.dst hz]
        refine picturePlanes_aligned hinv.chroma hdstView (hsafe.2.resolve_left fun hf => ?_)
        exact absurd (hf.symm.trans (hplan ▸ hz)) (by decide)
      exact ⟨hal, setBufPlanes_aligned hal _⟩

/-! ### Runs -/

theorem zimgAfter_concat (ctx : ScalerCtx) (p : ZimgPriv) (calls : List ZimgCall) (c : ZimgCall) :
    zimgAfter ctx p (calls ++ [c]) = (c.process ctx (zimgAfter ctx p calls)).priv := by
  rw [zimgAfter, List.foldl_append]
  rfl

theorem zimgAfter_misses (calls : List ZimgCall) : (zimgAfter ctx p calls).driftMisses =
    p.driftMisses + driftRejections ctx p calls := by
  induction calls generalizing p with
  | nil => rfl
  | cons c calls ih =>
    calc (zimgAfter ctx p (c :: calls)).driftMisses
        = (zimgAfter ctx (c.process ctx p).priv calls).driftMisses := rfl
      _ = p.driftMisses + driftRejections ctx p (c :: calls) := by
        rw [ih, (zimgProcess_frameLaw ctx p c).misses, driftRejections, Nat.add_assoc]

/-- A pool that was asked to start was asked by one of the frames. -/
theorem zimgAfter_started (hdone : p.pool.lazyDone = false) (hfailed : p.pool.lazyFailed = false)
    (calls : List ZimgCall)
    (h : (zimgAfter ctx p calls).pool.lazyDone = true ∨
      (zimgAfter ctx p calls).pool.lazyFailed = true) :
    ∃ pre d post, calls = pre ++ d :: post ∧ d.starts ctx (zimgAfter ctx p pre) = true := by
  induction calls using List.reverseRecOn with
  | nil => exact absurd h (by simp [zimgAfter, hdone, hfailed])
  | append_singleton calls c ih =>
    rw [zimgAfter_concat, (zimgProcess_frameLaw ctx _ c).started] at h
    rcases h with h | h
    · obtain ⟨pre, d, post, rfl, hd⟩ := ih h
      exact ⟨pre, d, post ++ [c], by simp, hd⟩
    · exact ⟨calls, c, [], rfl, h⟩

theorem zimgAfter_plan (h : p.pool.lazyDone = true) (calls : List ZimgCall) :
    (zimgAfter ctx p calls).plan = p.plan := by
  induction calls generalizing p with
  | nil => rfl
  | cons c calls ih =>
    have hlaw := zimgProcess_frameLaw ctx p c
    exact (ih (hlaw.done h)).trans (hlaw.plan (.inl h))

theorem process_of_broken (h : p.pool.broken = true) (c : ZimgCall) :
    c.process ctx p = ⟨.fatal, p, false, false⟩ := by
  cases zimgProcess_exit ctx p c with
  | broken _ hcall => exact hcall
  | badViews hb => exact absurd (h.symm.trans hb) (by decide)
  | drift _ _ hb => exact absurd (h.symm.trans hb) (by decide)
  | startFailed _ _ hb => exact absurd (h.symm.trans hb) (by decide)
  | dispatched _ _ hb => exact absurd (h.symm.trans hb) (by decide)

theorem zimgAfter_of_broken (h : p.pool.broken = true) (calls : List ZimgCall) :
    zimgAfter ctx p calls = p := by
  induction calls with
  | nil => rfl
  | cons c calls ih =>
    rw [zimgAfter, List.foldl_cons, process_of_broken h c]
    exact ih

/-- A backend whose pool still runs has misses to spare. -/
structure DriftInv (ctx : ScalerCtx) (workerBudget : ℤ) (p : ZimgPriv) : Prop where
  inv : ZimgInv ctx workerBudget p
  budget : p.pool.broken = false → p.driftMisses < zimgDriftFatalMisses

theorem DriftInv.process {workerBudget : ℤ} (h : DriftInv ctx workerBudget p) (c : ZimgCall) :
    DriftInv ctx workerBudget (c.process ctx p).priv := by
  refine ⟨zimgProcess_inv h.inv c.src c.dst c.outcome, fun hb => ?_⟩
  cases hbroken : p.pool.broken with
  | true =>
    rw [process_of_broken hbroken c] at hb
    exact absurd (hbroken.symm.trans hb) (by decide)
  | false => exact (zimgProcess_frameLaw ctx p c).budget hb (h.budget hbroken)

theorem DriftInv.after {workerBudget : ℤ} (h : DriftInv ctx workerBudget p)
    (calls : List ZimgCall) : DriftInv ctx workerBudget (zimgAfter ctx p calls) := by
  induction calls generalizing p with
  | nil => exact h
  | cons c calls ih => exact ih (h.process c)

end Exits

/-! ### The law -/

/-- A frame `c` after the frames `before` on the backend opened as `p₀`; `p` is
the backend it finds and `r` its result. -/
structure AlignmentLaw (ctx : ScalerCtx) (p₀ : ZimgPriv) (before : List ZimgCall) (c : ZimgCall)
    (p : ZimgPriv) (r : ZimgProcessed) : Prop where
  aligned : r.dispatched = true → r.priv.GraphsAligned
  /-- A frame that drifts comes after a frame that reached the start. -/
  startFirst : c.drifts ctx p = true → ∃ pre d post, before = pre ++ d :: post ∧
    d.starts ctx (zimgAfter ctx p₀ pre) = true
  planKept : p.pool.lazyDone = true → ∀ later, (zimgAfter ctx p later).plan = p.plan
  badViews : p.pool.broken = false → zimgFrameViewsInit ctx c.src c.dst = none →
    r = ⟨.transient, p, false, false⟩
  misses : p.driftMisses = driftRejections ctx p₀ before
  /-- The `k`-th rejection, for `k` up to the limit; there is none beyond it. -/
  drift : c.drifts ctx p = true → driftRejections ctx p₀ before < zimgDriftFatalMisses ∧
    r.dispatched = false ∧
    if driftRejections ctx p₀ before + 1 < zimgDriftFatalMisses then r.status = .transient
    else r.status = .fatal ∧ r.priv.pool.broken = true
  failed : r.dispatched = true →
    (r.completed = false ∨ ∃ i < r.priv.pool.nWorkers, c.outcome.rc i ≠ 0) →
    r.status = .fatal ∧ r.priv.pool.broken = true
  /-- A broken pool stays as it is, and its frames touch no memory. -/
  broken : p.pool.broken = true → ∀ (later : List ZimgCall) (d : ZimgCall),
    zimgAfter ctx p later = p ∧ d.process ctx p = ⟨.fatal, p, false, false⟩ ∧
      ∀ lib m m', (d.process ctx p).Ends lib d.outcome.rc m m' → m' = m

theorem alignmentLaw {ctx : ScalerCtx} {workerBudget : ℤ} {p₀ : ZimgPriv}
    (h : DriftInv ctx workerBudget p₀) (hdone : p₀.pool.lazyDone = false)
    (hfailed : p₀.pool.lazyFailed = false) (hzero : p₀.driftMisses = 0)
    (before : List ZimgCall) (c : ZimgCall) :
    AlignmentLaw ctx p₀ before c (zimgAfter ctx p₀ before)
      (c.process ctx (zimgAfter ctx p₀ before)) := by
  have hinv := h.after before
  have hmisses : (zimgAfter ctx p₀ before).driftMisses = driftRejections ctx p₀ before := by
    rw [zimgAfter_misses, hzero, Nat.zero_add]
  have hlaw := zimgProcess_frameLaw ctx (zimgAfter ctx p₀ before) c
  refine
    { aligned := dispatched_aligned hinv.inv
      startFirst := fun hd => zimgAfter_started hdone hfailed before (hlaw.drift hd).1
      planKept := fun hd later => zimgAfter_plan hd later
      badViews := fun hb hviews => ?_
      misses := hmisses
      drift := fun hd => ?_
      failed := fun hd hfail => ?_
      broken := fun hb later d => ⟨zimgAfter_of_broken hb later, process_of_broken hb d, ?_⟩ }
  · -- bad views come before everything but a broken pool
    cases zimgProcess_exit ctx (zimgAfter ctx p₀ before) c with
    | broken hb' => exact absurd (hb'.symm.trans hb) (by decide)
    | badViews _ _ hcall => exact hcall
    | drift _ _ _ hviews' => simp [hviews] at hviews'
    | startFailed _ _ _ hviews' => simp [hviews] at hviews'
    | dispatched _ _ _ hviews' => simp [hviews] at hviews'
  · obtain ⟨-, hdispatched, hstatus⟩ := hlaw.drift hd
    rw [hmisses] at hstatus
    refine ⟨hmisses ▸ hinv.budget ?_, hdispatched, hstatus⟩
    by_contra hb
    simp [ZimgCall.drifts, hb] at hd
  · -- only the last exit has dispatched
    cases zimgProcess_exit ctx (zimgAfter ctx p₀ before) c with
    | broken _ hcall => simp [hcall] at hd
    | badViews _ _ hcall => simp [hcall] at hd
    | drift srcView dstView _ _ _ hcall =>
      rw [hcall, (zimgNoteAlignmentDrift_law _ c.outcome).2.2.2.1] at hd
      cases hd
    | startFailed _ _ _ _ _ _ hcall => simp [hcall] at hd
    | dispatched srcView dstView _ _ _ _ hcall =>
      rw [hcall] at hfail ⊢
      set q := pointWorkers (zimgEnsureLazyInit (zimgPrepareFirstFrameIo
        (zimgAfter ctx p₀ before) ctx srcView dstView) c.outcome).2 srcView dstView
      have hdisp := zimgDispatchAndWait_law q c.outcome
      have hn : (zimgDispatchAndWait q c.outcome).priv.pool.nWorkers = q.pool.nWorkers := by
        rw [hdisp.pool.rest]
      rw [hn] at hfail
      have hstatus := hdisp.failed
      rw [if_pos hfail] at hstatus
      exact ⟨hstatus, hdisp.breaks hstatus⟩
  · intro lib m m' hends
    rwa [process_of_broken hb d, ZimgProcessed.Ends, if_pos rfl] at hends

/-- **Alignment and drift of the zimg backend.**

`before` is any history of frames, with any storage, views, starts and
dispatches. -/
theorem zimg_alignment_machine {ctx : ScalerCtx} {workerBudget : ℤ} {api alloc : Bool}
    {p₀ : ZimgPriv} (h : zimgOpen ctx workerBudget api alloc = some p₀)
    (before : List ZimgCall) (c : ZimgCall) :
    AlignmentLaw ctx p₀ before c (zimgAfter ctx p₀ before)
      (c.process ctx (zimgAfter ctx p₀ before)) := by
  have hinv := zimgReachable_inv (.open h)
  unfold zimgOpen at h
  split at h
  · cases h
  split at h
  · cases h
  simp only at h
  split at h
  · cases h
  · obtain rfl := Option.some.inj h
    exact alignmentLaw ⟨hinv, fun _ => show 0 < zimgDriftFatalMisses by decide⟩ rfl rfl rfl before c

/-- The sample frame, its source moved by `shift` bytes. -/
def shiftedCall (shift : ℕ) : ZimgCall where
  src := some { sampleSrc with
    p := fun i => { sampleSrc.p i with pixels := (sampleSrc.p i).pixels.map (· + shift) } }
  dst := some sampleDst
  outcome := smoothOutcome

/-- The graphs are built zero-copy, and the next source is off by 16 bytes. -/
theorem zimg_alignment_machine_shifted :
    (shiftedCall 16).drifts (sampleCtx 1 1)
        (zimgAfter (sampleCtx 1 1) (samplePriv true true) [shiftedCall 0]) = true ∧
      AlignmentLaw (sampleCtx 1 1) (samplePriv true true) [shiftedCall 0] (shiftedCall 16)
        (zimgAfter (sampleCtx 1 1) (samplePriv true true) [shiftedCall 0])
        ((shiftedCall 16).process (sampleCtx 1 1)
          (zimgAfter (sampleCtx 1 1) (samplePriv true true) [shiftedCall 0])) :=
  ⟨by decide +kernel, zimg_alignment_machine
    (show zimgOpen (sampleCtx 1 1) 2 true true = some (samplePriv true true) from by
      rw [samplePriv, Option.some_get]; rfl) [shiftedCall 0] (shiftedCall 16)⟩

end AutoUpscale
