/-
Cells on the real gate.

`ZimgCoverage` is about frames that report success.  Here a frame is any one that
reaches the gate; its cells are the jobs of the dispatch (`PoolJobs`), run a
`memcpy` or a byte of libzimg's output at a time and between any steps of the gate.

- `FrameReady.cellRun_confined`: a cell stays within its own bytes also when its
  graph fails.
- `FrameReady.partway`: what a cell has put in the picture when it has been run,
  when it has not begun, and when its graph has failed.
- `zimg_on_gate`: a frame is reported complete exactly when every cell of it is,
  and a fatal one leaves whole cells.
-/
import AutoUpscale.FrameJobs
import AutoUpscale.ZimgCoverage
import AutoUpscale.ZimgDrift

namespace AutoUpscale

open DisjointParallel LabelledTrace PlaneMemory

/-! ### Frames that reach the gate -/

section Dispatched

variable {ctx : ScalerCtx} {workerBudget : ℤ} {p : ZimgPriv} {c : ZimgCall}
  {srcView dstView : PictureView}

/-- Whatever the gate and the graphs report, the cells were all ready; the frame
is fatal when one of them has failed. -/
theorem zimgProcess_dispatched (h : ZimgInv ctx workerBudget p)
    (hviews : zimgFrameViewsInit ctx c.src c.dst = some (srcView, dstView))
    (hdispatched : (c.process ctx p).dispatched = true) :
    FrameDispatched ctx workerBudget srcView dstView (fun _ => 0)
        ⟨.ok, (c.process ctx p).priv, true, true⟩ ∧
      (c.process ctx p).status = if (c.process ctx p).completed = false ∨
        ∃ i < (c.process ctx p).priv.pool.nWorkers, c.outcome.rc i ≠ 0 then .fatal else .ok := by
  cases zimgProcess_exit ctx p c with
  | broken _ hcall =>
    rw [hcall] at hdispatched
    cases hdispatched
  | badViews _ _ hcall =>
    rw [hcall] at hdispatched
    cases hdispatched
  | drift _ _ _ _ _ hcall =>
    rw [hcall, (zimgNoteAlignmentDrift_law _ _).2.2.2.1] at hdispatched
    cases hdispatched
  | startFailed _ _ _ _ _ _ hcall =>
    rw [hcall] at hdispatched
    cases hdispatched
  | dispatched srcView' dstView' _ hviews' _ hstart hcall =>
    obtain ⟨rfl, rfl⟩ := Prod.mk.inj (Option.some.inj (hviews.symm.trans hviews'))
    obtain ⟨hinit, hdone⟩ := zimgEnsureLazyInit_inv (zimgPrepareFirstFrameIo_inv h srcView dstView)
      c.outcome
    obtain ⟨hpoint, hpointed⟩ := pointWorkers_inv hinit srcView dstView
    have hlaw := zimgDispatchAndWait_law (pointWorkers (zimgEnsureLazyInit
      (zimgPrepareFirstFrameIo p ctx srcView dstView) c.outcome).2 srcView dstView) c.outcome
    have hinv := zimgDispatchAndWait_inv hpoint c.outcome
    have hlazy := (stopFrame_flags hlaw.pool).1.trans ((congrArg WorkerPool.lazyDone
      (pointWorkers_rest _ srcView dstView).2.2).trans (hdone hstart))
    have hcount := congrArg WorkerPool.nWorkers hlaw.pool.rest
    rw [← hcall] at hlaw hinv hlazy hcount
    refine ⟨⟨hinv, hlazy, rfl, rfl, fun _ _ => rfl, fun i hi => ?_⟩, ?_⟩
    · obtain ⟨h1, h2, h3, h4⟩ := hpointed i (hcount ▸ hi)
      have hrest := hlaw.rest
      exact ⟨by rw [hrest]; exact h1, by rw [hrest]; exact h2, by rw [hrest]; exact h3,
        by rw [hrest]; exact h4⟩
    · rw [hlaw.failed, hcount]

end Dispatched

/-! ### Cells whose graph may fail -/

theorem CellStep.run_frame (lib : ZimgLib) {s : CellStep} {a : ℕ} (ha : a ∉ s.writes)
    (m : Memory) : s.run lib m a = m a := by
  cases s with
  | copy c => exact (confined_memcpy c.dst c.src c.n).frame m a ha
  | graph g sb db q y x => exact Function.update_of_ne ha _ _

section Alone

variable {ctx : ScalerCtx} {f : ZimgFrame} (h : FrameReady ctx f) {i : ℕ}
  (hi : i < f.priv.pool.nWorkers)
include h hi

/-- The steps of a cell: copy-in, what its graph writes before it returns, and
copy-out if it returned 0. -/
theorem FrameReady.mem_cellRun (lib : ZimgLib) {rc : ℕ → ℤ} {act : CellStep}
    (hact : act ∈ f.priv.cellRun lib rc i) :
    (∃ c ∈ f.copyIn i, act = .copy c) ∨
      (∃ k ∈ lib.writes (f.graph i) (rc i), act =
        .graph (f.graph i) (f.priv.workers i).sb (f.priv.workers i).db k.1 k.2.1 k.2.2) ∨
      rc i = 0 ∧ ∃ c ∈ workerEmitOutput (f.priv.workers i) 0, act = .copy c := by
  have hcopy : (f.priv.workers i).copyIn = !f.priv.plan.srcZerocopy := (h.ready i hi).copyIn
  rw [ZimgPriv.cellRun, (h.ready i hi).graph] at hact
  simp only [zimgWorkerRun, List.mem_append] at hact
  rcases hact with (hact | hact) | hact
  · left
    rw [ZimgFrame.copyIn]
    cases hz : f.priv.plan.srcZerocopy with
    | true => simp [hcopy, hz] at hact
    | false =>
      rw [hcopy, hz, if_pos (by decide)] at hact
      obtain ⟨c, hc, rfl⟩ := List.mem_map.mp hact
      exact ⟨c, hc, rfl⟩
  · obtain ⟨k, hk, rfl⟩ := List.mem_map.mp hact
    exact .inr (.inl ⟨k, hk, rfl⟩)
  · obtain ⟨c, hc, rfl⟩ := List.mem_map.mp hact
    by_cases hrc : rc i = 0
    · rw [if_pos hrc] at hc
      exact .inr (.inr ⟨hrc, c, hc, rfl⟩)
    · rw [if_neg hrc] at hc
      cases hc

/-- A cell stays within its own addresses, whatever its graph returns. -/
theorem FrameReady.cellRun_confined (hapart : f.Apart) (lib : ZimgLib) {rc : ℕ → ℤ}
    {act : CellStep} (hact : act ∈ f.priv.cellRun lib rc i) :
    Confined (act.run lib) (f.touched i) (f.owned i) ∧ act.writes ⊆ f.owned i := by
  have hsteps : ∀ {c : Memcpy}, c ∈ f.copyIn i ∨ c ∈ workerEmitOutput (f.priv.workers i) 0 →
      CellStep.copy c ∈ f.cellSteps lib i := by
    intro c hc
    rw [ZimgFrame.cellSteps, List.mem_append, List.mem_append]
    rcases hc with hc | hc
    · exact .inl (.inl (List.mem_map_of_mem hc))
    · exact .inr (List.mem_map_of_mem hc)
  rcases h.mem_cellRun hi lib hact with ⟨c, hc, rfl⟩ | ⟨⟨q, y, x⟩, hk, rfl⟩ | ⟨-, c, hc, rfl⟩
  · exact h.cellSteps_confined hi hapart lib (hsteps (.inl hc))
  · have hdom : (q, y, x) ∈ rectDom (f.outRect i) := by
      rw [ZimgFrame.rectDom_outRect]
      exact lib.writes_within _ _ _ _ _ hk
    have hwrite : {(f.priv.workers i).db.addr q y x} ⊆ f.owned i := by
      rw [Set.singleton_subset_iff, h.db_addr hi (q, y, x)]
      exact h.out_owned hi ⟨_, hdom, rfl⟩
    refine ⟨(confined_store fun m m' hm => ?_).mono (h.in_touched hi) hwrite, hwrite⟩
    rw [h.readImage_eq hi, h.readImage_eq hi]
    congr 1
    funext q y x
    unfold sourceImage
    split
    · rename_i hread
      exact hm ⟨(q, y, x), hread, rfl⟩
    · rfl
  · exact h.cellSteps_confined hi hapart lib (hsteps (.inr hc))

/-- Without destination zero-copy only copy-out writes the picture, and there is
none after a graph that failed. -/
theorem FrameReady.failed_writes (hapart : f.Apart) (lib : ZimgLib)
    (hz : f.priv.plan.dstZerocopy = false) {rc : ℕ → ℤ} (hrc : rc i ≠ 0) {act : CellStep}
    (hact : act ∈ f.priv.cellRun lib rc i) {k : Plane × ℕ × ℕ} (hk : k ∈ rectDom (f.dstRect i)) :
    f.rectAddr .dstPicture (f.dstRect i) k ∉ act.writes := by
  intro hmem
  rcases h.mem_cellRun hi lib hact with ⟨c, hc, rfl⟩ | ⟨⟨q, y, x⟩, hw, rfl⟩ | ⟨hzero, -⟩
  · by_cases hs : f.priv.plan.srcZerocopy = true
    · simp [ZimgFrame.copyIn, hs] at hc
    have hs : f.priv.plan.srcZerocopy = false := Bool.not_eq_true _ ▸ hs
    rw [ZimgFrame.copyIn, if_neg (by simp [hs])] at hc
    obtain ⟨k', hk', heq⟩ := (h.copyIn_moves hi hapart hs).bytes_dst_subset hc hmem
    have hbuf := (h.rectAddr_inj hapart (by decide) (h.dst_fits hi) (h.in_fits hi) hk hk'
      heq.symm).1
    rw [ZimgFrame.inBuffer, hs] at hbuf
    exact absurd hbuf (by decide)
  · rw [CellStep.writes, Set.mem_singleton_iff, h.db_addr hi (q, y, x)] at hmem
    have hdom : (q, y, x) ∈ rectDom (f.outRect i) := by
      rw [ZimgFrame.rectDom_outRect]
      exact lib.writes_within _ _ _ _ _ hw
    have hbuf := (h.rectAddr_inj hapart (by decide) (h.dst_fits hi) (h.out_fits hi) hk hdom
      hmem).1
    rw [ZimgFrame.outBuffer, hz] at hbuf
    split at hbuf
    · cases hbuf
    · exact absurd hbuf (by decide)
  · exact hrc hzero

end Alone

/-! ### Cells that stop on the way -/

/-- In the picture in `m'`, cell `i` is what libzimg makes of the input picture
in `m`. -/
def ZimgFrame.Scaled (f : ZimgFrame) (lib : ZimgLib) (m m' : Memory) (i : ℕ) : Prop :=
  ∀ q y x, (f.dstRect i q).Holds y x → m' (f.addr ⟨.dstPicture, q, y, x⟩) =
    lib.output (f.graph i) (sourceImage m (f.view .srcPicture) (f.srcRect i)) q
      (y - (f.dstRect i q).top) (x - (f.dstRect i q).left)

/-- In the picture cell `i` is as it was. -/
def ZimgFrame.Untouched (f : ZimgFrame) (m m' : Memory) (i : ℕ) : Prop :=
  ∀ q y x, (f.dstRect i q).Holds y x →
    m' (f.addr ⟨.dstPicture, q, y, x⟩) = m (f.addr ⟨.dstPicture, q, y, x⟩)

section Frame

variable {ctx : ScalerCtx} {f : ZimgFrame} (h : FrameReady ctx f) {lib : ZimgLib} {rc : ℕ → ℤ}
include h

theorem FrameReady.jobs_separated (hapart : f.Apart) (lib : ZimgLib) (rc : ℕ → ℤ) :
    Separated (CellStep.run lib) (fun i : Fin f.priv.pool.nWorkers => f.priv.cellRun lib rc i)
      (fun i => f.touched i) (fun i => f.owned i) := by
  refine ⟨fun i act hact => (h.cellRun_confined i.2 hapart lib hact).1, fun i j hij => ?_⟩
  exact h.owned_apart hapart i.2 j.2 fun heq => hij (Fin.ext heq)

/-- What is in the picture of a cell that has been run, of one that has not begun
and of one whose graph has failed. -/
theorem FrameReady.partway (hapart : f.Apart) {m m' : Memory}
    {left : Fin f.priv.pool.nWorkers → List CellStep}
    (hrun : Partway (CellStep.run lib)
      (fun i : Fin f.priv.pool.nWorkers => f.priv.cellRun lib rc i) m left m')
    (i : Fin f.priv.pool.nWorkers) :
    (rc i = 0 → left i = [] → f.Scaled lib m m' i) ∧
      (left i = f.priv.cellRun lib rc i → f.Untouched m m' i) ∧
      (f.priv.plan.dstZerocopy = false → rc i ≠ 0 → f.Untouched m m' i) := by
  have hsep := h.jobs_separated hapart lib rc
  obtain ⟨done, hdone, heq⟩ := hrun.eqOn_solo hsep i
  have hmine : ∀ {k}, k ∈ rectDom (f.dstRect i) →
      f.rectAddr .dstPicture (f.dstRect i) k ∈ f.touched i ∪ f.owned i := fun hk =>
    .inr (h.dst_owned i.2 ⟨_, hk, rfl⟩)
  refine ⟨fun hrc hnil q y x hc => ?_, fun hfull q y x hc => ?_, fun hz hrc q y x hc => ?_⟩ <;>
    obtain ⟨hk, haddr⟩ := f.rectAddr_dst hc
  · rw [hnil, List.append_nil] at hdone
    rw [← haddr, heq (hmine hk), ← hdone, h.cellRun_eq i.2 lib hrc]
    exact h.cell_solo i.2 hapart lib m hk
  · rw [← haddr]
    exact hrun.eqOn_start hsep hfull (hmine hk)
  · rw [← haddr, heq (hmine hk)]
    refine solo_frame (fun act hact m => ?_) m
    have hmem : act ∈ f.priv.cellRun lib rc i := by
      rw [hdone]
      exact List.mem_append_left _ hact
    exact CellStep.run_frame lib (h.failed_writes i.2 hapart lib hz hrc hmem hk) m

end Frame

/-- **A frame of zimg on the gate.**  The cells of a frame that reaches the gate
run as the jobs of its dispatch; `r.completed` is what the gate returned.  The
frame is reported complete exactly when the gate was and every graph returned 0.
Each byte of the picture is in one cell.  A cell whose graph returned 0 is in the
picture when the dispatch returned 0; when it failed and every thread was joined,
such a cell is in the picture as a whole or not at all.  A cell whose graph failed
leaves no trace unless the graph itself writes into the picture.  Nothing outside
the picture and the scratch changes. -/
theorem zimg_on_gate {fmt : VideoFormat} {cfg : Config} {cores : ℤ} {ctx : ScalerCtx}
    (hplan : planOpen fmt cfg cores = some ctx) {subW subH : ℕ} {swap : Bool}
    (hchroma : chromaToZimg ctx.chroma = some (subW, subH, swap)) {workerBudget : ℤ}
    {p : ZimgPriv} (hp : ZimgReachable ctx workerBudget p) {c : ZimgCall}
    {srcView dstView : PictureView}
    (hviews : zimgFrameViewsInit ctx c.src c.dst = some (srcView, dstView))
    {r : ZimgProcessed} (hr : r = c.process ctx p) (hdispatched : r.dispatched = true)
    {f : ZimgFrame} (hf : f = ⟨r.priv, srcView, dstView⟩) (hapart : f.Apart)
    {lib : ZimgLib} {n : ℕ} (hn : n = r.priv.pool.nWorkers) {pre mid : List (JobEvent n)}
    {d d₁ d₂ d' : JobState n CellStep ℕ UInt8} {ok : Bool} (hok : r.completed = ok)
    (hpre : JobRun (CellStep.run lib) pre d)
    (hjob : ∀ i : Fin n, d.job i = r.priv.cellRun lib c.outcome.rc i)
    (hcall : JobStep (CellStep.run lib) d (.gate .dispatch) d₁)
    (hmid : Execution (JobStep (CellStep.run lib)) d₁ mid d₂)
    (hopen : ∀ ok, .gate (.ret ok) ∉ mid)
    (hret : JobStep (CellStep.run lib) d₂ (.gate (.ret ok)) d') :
    (r.status = if ok = true ∧ ∀ i < n, c.outcome.rc i = 0 then .ok else .fatal) ∧
      (∀ q y x, y < q.extent subH ctx.dstH → x < q.extent subW ctx.dstW →
        ∃! i, i < n ∧ (f.dstRect i q).Holds y x) ∧
      (∀ i < n, c.outcome.rc i = 0 →
        (ok = true → f.Scaled lib d.memory d'.memory i) ∧
        (.gate (.fault .join) ∉ pre ++ mid →
          f.Scaled lib d.memory d'.memory i ∨ f.Untouched d.memory d'.memory i)) ∧
      (∀ i < n, c.outcome.rc i ≠ 0 → r.priv.plan.dstZerocopy = false →
        f.Untouched d.memory d'.memory i) ∧
      ∀ a ∉ f.visible ∪ f.scratch, d'.memory a = d.memory a := by
  have hctx := planOpen_spec hplan
  obtain ⟨hdisp, hstatus⟩ := zimgProcess_dispatched (zimgReachable_inv hp) hviews (hr ▸ hdispatched)
  rw [← hr] at hdisp hstatus
  have h : FrameReady ctx f := by
    have hready := hdisp.frameReady hctx hviews
    rwa [hf]
  have hpriv : r.priv = f.priv := by rw [hf]
  rw [hpriv] at hn hjob hstatus ⊢
  subst hn
  obtain ⟨rfl, rfl, rfl⟩ : subW = f.priv.subW ∧ subH = f.priv.subH ∧
      swap = f.priv.yv12SwapUv := by
    simpa using hchroma.symm.trans h.grid.chroma
  obtain ⟨left, hpart, hall, hfail⟩ := jobs_at_return hpre hcall hmid hopen hret
  rw [show d.job = fun i : Fin f.priv.pool.nWorkers => f.priv.cellRun lib c.outcome.rc i from
    funext hjob] at hpart hfail
  refine ⟨?_, fun q y x hy hx => ?_, fun i hi hrc => ?_, fun i hi hrc hz => ?_, fun a ha => ?_⟩
  · rw [hstatus, hok]
    by_cases hgood : ok = true ∧ ∀ i < f.priv.pool.nWorkers, c.outcome.rc i = 0
    · rw [if_pos hgood, if_neg]
      rintro (hfalse | ⟨i, hi, hne⟩)
      · exact absurd (hgood.1.symm.trans hfalse) (by decide)
      · exact hne (hgood.2 i hi)
    · rw [if_neg hgood, if_pos]
      by_contra hnone
      push Not at hnone
      exact hgood ⟨by simpa using hnone.1, hnone.2⟩
  · obtain ⟨i, hi, hcell⟩ := h.grid.exists_dstRect hy hx
    rw [← h.count] at hi
    rw [← h.cell_eq] at hcell
    exact ⟨i, ⟨hi, hcell⟩, fun j hj => h.dstRect_unique hj.1 hi hj.2 hcell⟩
  · obtain ⟨hscaled, huntouched, -⟩ := h.partway hapart hpart ⟨i, hi⟩
    refine ⟨fun htrue => hscaled hrc (hall htrue ⟨i, hi⟩), fun hno => ?_⟩
    exact (hfail hno ⟨i, hi⟩).imp (hscaled hrc) huntouched
  · exact (h.partway hapart hpart ⟨i, hi⟩).2.2 hz hrc
  · exact hpart.frame (h.jobs_separated hapart _ _) fun i hmem => ha (f.owned_subset i hmem)

/-- Two stripes of a frame with copy-in, the worker of one late at the gate. -/
theorem zimg_on_gate_lateArrival :
    ∃ pre, ∃ d d' : JobState 2 CellStep ℕ UInt8, JobRun (CellStep.run flatLib) pre d ∧
      ∀ i < 2, ZimgFrame.Scaled ⟨(sampleResult false true).priv, (sampleViews false true).1,
        (sampleViews false true).2⟩ flatLib d.memory d'.memory i := by
  have hdispatched : (sampleResult false true).dispatched = true := by decide +kernel
  have hcompleted : (sampleResult false true).completed = true := by decide +kernel
  obtain ⟨pre, mid, d, d₁, d₂, d', hpre, -, hjob, hcall, hmid, hopen, hret⟩ :=
    exists_lateArrival (CellStep.run flatLib) (fun _ => 100) fun i =>
      (sampleResult false true).priv.cellRun flatLib smoothOutcome.rc i
  refine ⟨pre, d, d', hpre, fun i hi => ?_⟩
  obtain ⟨-, -, hcells, -⟩ := zimg_on_gate (sampleCtx_planned false true)
    (show chromaToZimg (sampleCtx 0 1).chroma = some (1, 1, true) from by decide)
    (samplePriv_reachable false true) (c := ⟨some sampleSrc, some sampleDst, smoothOutcome⟩)
    (sampleViews_eq false true) (r := sampleResult false true) rfl hdispatched rfl
    (sampleResult_apart false true) (sampleResult_workers false true).symm hcompleted hpre
    (fun i => by rw [hjob]) hcall hmid hopen hret
  exact (hcells i hi rfl).1 rfl

end AutoUpscale
