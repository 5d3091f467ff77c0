/-
Copy mode and zero-copy mode make the same picture.

- `zimg_modes_agree`: on a rows-only grid the four combinations of source and
  destination modes leave the same visible planes, and in copy-in mode a graph
  reads what its own cell copied in.
-/
import AutoUpscale.ZimgCoverage

namespace AutoUpscale

open DisjointParallel PlaneMemory

/-- The context with other values of the two zero-copy options. -/
def ScalerCtx.withZerocopy (ctx : ScalerCtx) (src dst : ℤ) : ScalerCtx :=
  { ctx with srcZerocopy := src, zerocopy := dst }

theorem OpenPlanned.withZerocopy {ctx : ScalerCtx} (h : OpenPlanned ctx) (src dst : ℤ) :
    OpenPlanned (ctx.withZerocopy src dst) :=
  ⟨h.target, h.srcW_even, h.srcH_even, h.xOffset_even, h.yOffset_even⟩

/-- The request of a context with source zero-copy granted. -/
def zerocopyReq (ctx : ScalerCtx) (workerBudget : ℤ) : ZimgIoReq :=
  { zimgBuildIoReq ctx workerBudget true true with srcZerocopy := true }

/-- A frame on any reachable backend that reports success. -/
def FrameRun (ctx : ScalerCtx) (workerBudget : ℤ) (lib : ZimgLib) (f : ZimgFrame)
    (m m' : Memory) : Prop :=
  ∃ p src dst o, ZimgReachable ctx workerBudget p ∧
    zimgFrameViewsInit ctx src dst = some (f.srcView, f.dstView) ∧
    (zimgProcess ctx p src dst o).status = .ok ∧ f.priv = (zimgProcess ctx p src dst o).priv ∧
    (zimgProcess ctx p src dst o).Ends lib o.rc m m'

/-! ### The grid of every mode -/

/-- The destination mode never changes the grid, and on a rows-only grid neither
does the source mode. -/
theorem zimgPlan_rows_only {ctx : ScalerCtx} {workerBudget : ℤ}
    (hrows : (resolveIoPlan (zerocopyReq ctx workerBudget)).nCols = 1) (src dst : ℤ)
    (srcAligned dstAligned : Bool) :
    let plan := zimgPlan (ctx.withZerocopy src dst) workerBudget srcAligned dstAligned
    plan.nRows = (resolveIoPlan (zerocopyReq ctx workerBudget)).nRows ∧ plan.nCols = 1 := by
  obtain ⟨hr, hc⟩ := resolveIoPlan_rows_only (zerocopyReq ctx workerBudget) rfl hrows
  have hplan : ∀ z, (zimgBuildIoReq (ctx.withZerocopy src dst) workerBudget srcAligned
      dstAligned).srcZerocopy = z →
      (zimgPlan (ctx.withZerocopy src dst) workerBudget srcAligned dstAligned).nRows =
        (resolveIoPlan { zerocopyReq ctx workerBudget with srcZerocopy := z }).nRows ∧
      (zimgPlan (ctx.withZerocopy src dst) workerBudget srcAligned dstAligned).nCols =
        (resolveIoPlan { zerocopyReq ctx workerBudget with srcZerocopy := z }).nCols := by
    rintro z rfl
    exact ⟨rfl, rfl⟩
  obtain ⟨hrow, hcol⟩ := hplan _ rfl
  cases hz : (zimgBuildIoReq (ctx.withZerocopy src dst) workerBudget srcAligned
    dstAligned).srcZerocopy with
  | false =>
    rw [hz] at hrow hcol
    exact ⟨hrow.trans hr, hcol.trans (hc.trans hrows)⟩
  | true =>
    rw [hz] at hrow hcol
    exact ⟨hrow, hcol.trans hrows⟩

/-! ### One frame -/

section Frames

variable {ctx : ScalerCtx} {workerBudget : ℤ} {lib : ZimgLib} {f : ZimgFrame} {m m' : Memory}

/-- What the comparison of two frames needs of each. -/
theorem FrameRun.spec (hctx : OpenPlanned ctx) (h : FrameRun ctx workerBudget lib f m m') :
    FrameReady ctx f ∧
      (∃ srcAligned dstAligned, f.priv.plan = zimgPlan ctx workerBudget srcAligned dstAligned) ∧
      ∃ rc : ℕ → ℤ, (∀ i < f.priv.pool.nWorkers, rc i = 0) ∧ Interleaving (CellStep.run lib)
        (fun i : Fin f.priv.pool.nWorkers => f.priv.cellRun lib rc i) m m' := by
  obtain ⟨priv, srcView, dstView⟩ := f
  obtain ⟨p, src, dst, o, hp, hviews, hok, rfl, hends⟩ := h
  obtain ⟨srcView', dstView', hviews', hdisp⟩ := zimgProcess_ok (zimgReachable_inv hp) hok
  obtain ⟨rfl, rfl⟩ := Prod.mk.inj (Option.some.inj (hviews.symm.trans hviews'))
  rw [ZimgProcessed.Ends, hdisp.dispatched, if_neg (by decide)] at hends
  exact ⟨hdisp.frameReady hctx hviews, hdisp.inv.plan, o.rc, hdisp.rc, hends hdisp.completed⟩

/-- In copy-in mode a graph reads bytes that its own cell copied in and that no
other cell writes. -/
theorem FrameReady.reads_own_copies (h : FrameReady ctx f) (hapart : f.Apart)
    (hz : f.priv.plan.srcZerocopy = false) {i : ℕ} (hi : i < f.priv.pool.nWorkers) {q : Plane}
    {y x : ℕ} (hy : y < (f.graph i).srcFmt.planeHeight q)
    (hx : x < (f.graph i).srcFmt.planeWidth q) :
    (∃ c ∈ workerCopyInStripe (f.priv.workers i),
      (f.priv.workers i).sb.addr q y x ∈ bytes c.dst c.n) ∧
      ∀ j < f.priv.pool.nWorkers, j ≠ i → ∀ s ∈ f.cellSteps lib j,
        (f.priv.workers i).sb.addr q y x ∉ s.writes := by
  have hdom : (q, y, x) ∈ rectDom (f.srcRect i) := ⟨hy, hx⟩
  rw [h.sb_addr hi (q, y, x)]
  refine ⟨(h.copyIn_moves hi hapart hz).exists_copy hdom, fun j hj hne s hs hmem => ?_⟩
  have hown := (h.cellSteps_confined hj hapart lib hs).2 hmem
  exact Set.disjoint_left.mp (h.owned_apart hapart hj hi hne) hown
    (.inr (h.in_owned hi hz ⟨_, hdom, rfl⟩))

end Frames

/-! ### Two frames -/

/-- Two frames with the same grid and the same source leave the same picture. -/
theorem frames_agree {ctx₁ ctx₂ : ScalerCtx} {f₁ f₂ : ZimgFrame} (h₁ : FrameReady ctx₁ f₁)
    (h₂ : FrameReady ctx₂ f₂) (hapart₁ : f₁.Apart) (hapart₂ : f₂.Apart)
    (hgeom : ctx₁.geom = ctx₂.geom) (halgo : ctx₁.algo = ctx₂.algo)
    (hchroma : ctx₁.chroma = ctx₂.chroma) (hrows : f₁.priv.plan.nRows = f₂.priv.plan.nRows)
    (hcols : f₁.priv.plan.nCols = f₂.priv.plan.nCols) {lib : ZimgLib} {rc₁ rc₂ : ℕ → ℤ}
    (hrc₁ : ∀ i < f₁.priv.pool.nWorkers, rc₁ i = 0)
    (hrc₂ : ∀ i < f₂.priv.pool.nWorkers, rc₂ i = 0) {m₁ m₁' m₂ m₂' : Memory}
    (hrun₁ : Interleaving (CellStep.run lib)
      (fun i : Fin f₁.priv.pool.nWorkers => f₁.priv.cellRun lib rc₁ i) m₁ m₁')
    (hrun₂ : Interleaving (CellStep.run lib)
      (fun i : Fin f₂.priv.pool.nWorkers => f₂.priv.cellRun lib rc₂ i) m₂ m₂')
    (hsrc : ∀ q y x, y < q.extent f₁.priv.subH ctx₁.srcH → x < q.extent f₁.priv.subW ctx₁.srcW →
      m₁ (f₁.addr ⟨.srcPicture, q, y, x⟩) = m₂ (f₂.addr ⟨.srcPicture, q, y, x⟩))
    {q : Plane} {y x : ℕ} (hy : y < q.extent f₁.priv.subH ctx₁.dstH)
    (hx : x < q.extent f₁.priv.subW ctx₁.dstW) :
    m₁' (f₁.addr ⟨.dstPicture, q, y, x⟩) = m₂' (f₂.addr ⟨.dstPicture, q, y, x⟩) := by
  obtain ⟨i, hi, hcell⟩ := h₁.grid.exists_dstRect hy hx
  have hsubs : f₁.priv.subW = f₂.priv.subW ∧ f₁.priv.subH = f₂.priv.subH := by
    have hc := h₁.grid.chroma
    rw [hchroma, h₂.grid.chroma, Option.some_inj, Prod.mk.injEq, Prod.mk.injEq] at hc
    exact ⟨hc.1.symm, hc.2.1.symm⟩
  have hi₁ : i < f₁.priv.pool.nWorkers := h₁.count ▸ hi
  have hi₂ : i < f₂.priv.pool.nWorkers := by rwa [h₂.count, ← hrows, ← hcols]
  -- the same cell of the same grid, so the same graph
  have hcellEq : f₁.cell i = f₂.cell i := by
    unfold ZimgFrame.cell gridCell
    rw [h₁.geom, h₂.geom, hgeom, hrows, hcols]
  have hdstRect : f₁.dstRect i = f₂.dstRect i := by
    funext q
    rw [ZimgFrame.dstRect, ZimgFrame.dstRect, hcellEq, hsubs.1, hsubs.2]
  have hsrcRect : f₁.srcRect i = f₂.srcRect i := by
    funext q
    rw [ZimgFrame.srcRect, ZimgFrame.srcRect, hcellEq, hsubs.1, hsubs.2, h₁.geom, h₂.geom, hgeom]
  have hgraph : f₁.graph i = f₂.graph i := by
    rw [ZimgFrame.graph, ZimgFrame.graph, hcellEq, hsubs.1, hsubs.2, h₁.geom, h₂.geom, hgeom,
      h₁.algo, h₂.algo, halgo]
  -- and the same source image
  have himg : sourceImage m₁ (f₁.view .srcPicture) (f₁.srcRect i) =
      sourceImage m₂ (f₂.view .srcPicture) (f₂.srcRect i) := by
    funext q y x
    unfold sourceImage
    rw [hsrcRect]
    split
    · rename_i hdom
      rw [← hsrcRect] at hdom ⊢
      have huse := (h₁.src_fits hi₁).inUse (k := (q, y, x)) hdom
      have hgeom₁ : f₁.priv.geom.srcH = ctx₁.srcH ∧ f₁.priv.geom.srcW = ctx₁.srcW := by
        rw [h₁.geom]
        exact ⟨rfl, rfl⟩
      simp only [ZimgFrame.InUse, FrameByte.ofRect, ZimgFrame.rows, ZimgFrame.cols,
        ZimgFrame.size, hgeom₁.1, hgeom₁.2] at huse
      exact hsrc q _ _ huse.1 huse.2
    · rfl
  rw [← h₁.cell_eq] at hcell
  obtain ⟨hk₁, haddr₁⟩ := f₁.rectAddr_dst hcell
  have hout₁ := h₁.output hrc₁ hapart₁ hrun₁ hi₁ hk₁
  have hcell₂ : (f₂.dstRect i q).Holds y x := by
    rw [← hdstRect]
    exact hcell
  obtain ⟨hk₂, haddr₂⟩ := f₂.rectAddr_dst hcell₂
  have hout₂ := h₂.output hrc₂ hapart₂ hrun₂ hi₂ hk₂
  rw [haddr₁] at hout₁
  rw [haddr₂] at hout₂
  rw [hout₁, hout₂, hgraph, himg, hdstRect]

/-- **Copy mode and zero-copy mode make the same picture.**  The first part is
about the resolver, the second compares a frame in any mode with a frame in any
other, the third is about a single frame. -/
theorem zimg_modes_agree :
    (∀ req : ZimgIoReq, req.srcZerocopy = true → (resolveIoPlan req).nCols = 1 →
      let off := resolveIoPlan { req with srcZerocopy := false }
      off.nRows = (resolveIoPlan req).nRows ∧ off.nCols = (resolveIoPlan req).nCols ∧
        off.nThreads = (resolveIoPlan req).nThreads) ∧
    (∀ fmt cfg cores ctx, planOpen fmt cfg cores = some ctx → ∀ subW subH swap,
      chromaToZimg ctx.chroma = some (subW, subH, swap) → ∀ workerBudget,
      (resolveIoPlan (zerocopyReq ctx workerBudget)).nCols = 1 →
      ∀ lib src₁ dst₁ src₂ dst₂ f₁ f₂ m₁ m₁' m₂ m₂',
      FrameRun (ctx.withZerocopy src₁ dst₁) workerBudget lib f₁ m₁ m₁' → f₁.Apart →
      FrameRun (ctx.withZerocopy src₂ dst₂) workerBudget lib f₂ m₂ m₂' → f₂.Apart →
      (∀ q y x, y < Plane.extent q subH ctx.srcH → x < Plane.extent q subW ctx.srcW →
        m₁ (pictureByte swap f₁.srcView q y x) = m₂ (pictureByte swap f₂.srcView q y x)) →
      ∀ q y x, y < Plane.extent q subH ctx.dstH → x < Plane.extent q subW ctx.dstW →
        m₁' (pictureByte swap f₁.dstView q y x) = m₂' (pictureByte swap f₂.dstView q y x)) ∧
    ∀ fmt cfg cores ctx, planOpen fmt cfg cores = some ctx →
      ∀ workerBudget lib f m m', FrameRun ctx workerBudget lib f m m' → f.Apart →
      f.priv.plan.srcZerocopy = false → ∀ i < f.priv.pool.nWorkers,
      ∀ g, (f.priv.workers i).graph = some g → ∀ q y x, y < g.srcFmt.planeHeight q →
      x < g.srcFmt.planeWidth q →
      (∃ c ∈ workerCopyInStripe (f.priv.workers i),
        (f.priv.workers i).sb.addr q y x ∈ bytes c.dst c.n) ∧
      ∀ j < f.priv.pool.nWorkers, j ≠ i → ∀ s ∈ f.cellSteps lib j,
        (f.priv.workers i).sb.addr q y x ∉ s.writes := by
  refine ⟨fun req hz hcols => ?_, ?_, ?_⟩
  · obtain ⟨hr, hc⟩ := resolveIoPlan_rows_only _ hz hcols
    exact ⟨hr, hc, congrArg₂ (· * ·) hr hc⟩
  · intro fmt cfg cores ctx hplan subW subH swap hchroma workerBudget hrows lib src₁ dst₁ src₂ dst₂
      f₁ f₂ m₁ m₁' m₂ m₂' hrun₁ hapart₁ hrun₂ hapart₂ hsrc q y x hy hx
    have hctx := planOpen_spec hplan
    obtain ⟨h₁, ⟨sa₁, da₁, hplan₁⟩, rc₁, hrc₁, hint₁⟩ := hrun₁.spec (hctx.withZerocopy src₁ dst₁)
    obtain ⟨h₂, ⟨sa₂, da₂, hplan₂⟩, rc₂, hrc₂, hint₂⟩ := hrun₂.spec (hctx.withZerocopy src₂ dst₂)
    obtain ⟨hr₁, hc₁⟩ := zimgPlan_rows_only hrows src₁ dst₁ sa₁ da₁
    obtain ⟨hr₂, hc₂⟩ := zimgPlan_rows_only hrows src₂ dst₂ sa₂ da₂
    have hsub : ∀ {f : ZimgFrame} {src dst}, FrameReady (ctx.withZerocopy src dst) f →
        subW = f.priv.subW ∧ subH = f.priv.subH ∧ swap = f.priv.yv12SwapUv := by
      intro f src dst h
      simpa using hchroma.symm.trans h.grid.chroma
    obtain ⟨hw₁, hh₁, hswap₁⟩ := hsub h₁
    obtain ⟨-, -, hswap₂⟩ := hsub h₂
    -- both frames cut the picture in the same rows
    have hres := frames_agree h₁ h₂ hapart₁ hapart₂ rfl rfl rfl
      (by rw [hplan₁, hplan₂, hr₁, hr₂]) (by rw [hplan₁, hplan₂, hc₁, hc₂]) hrc₁ hrc₂ hint₁ hint₂
      (q := q) (y := y) (x := x)
    rw [← hw₁, ← hh₁] at hres
    have hbyte₁ : ∀ v, pictureByte swap v = pictureByte f₁.priv.yv12SwapUv v := by rw [hswap₁]; simp
    have hbyte₂ : ∀ v, pictureByte swap v = pictureByte f₂.priv.yv12SwapUv v := by rw [hswap₂]; simp
    rw [hbyte₁, hbyte₂]
    refine hres (fun q y x hy hx => ?_) hy hx
    have hbyte := hsrc q y x hy hx
    rw [hbyte₁, hbyte₂] at hbyte
    exact hbyte
  · intro fmt cfg cores ctx hplan workerBudget lib f m m' hrun hapart hz i hi g hg q y x hy hx
    obtain ⟨h, -⟩ := hrun.spec (planOpen_spec hplan)
    have hgraph : g = f.graph i := Option.some.inj (hg.symm.trans (h.ready i hi).graph)
    subst hgraph
    exact h.reads_own_copies hapart hz hi hy hx

/-- The frame of a sample result. -/
def sampleFrame (s d : Bool) : ZimgFrame :=
  ⟨(sampleResult s d).priv, (sampleViews s d).1, (sampleViews s d).2⟩

theorem sampleFrame_run (s d : Bool) (m : Memory) :
    ∃ m', FrameRun (sampleCtx s.toInt d.toInt) 2 flatLib (sampleFrame s d) m m' := by
  obtain ⟨m', hends⟩ := sampleResult_ends s d m
  exact ⟨m', samplePriv s d, some sampleSrc, some sampleDst, smoothOutcome,
    samplePriv_reachable s d, sampleViews_eq s d, sampleResult_status s d, rfl, hends⟩

/-- Copy-in and copy-out against zero-copy on both sides. -/
theorem zimg_modes_agree_yv12 : ∃ m₁ m₂,
    FrameRun (sampleCtx 0 0) 2 flatLib (sampleFrame false false) (fun _ => 100) m₁ ∧
    FrameRun (sampleCtx 1 1) 2 flatLib (sampleFrame true true) (fun _ => 100) m₂ ∧
    ∀ q y x, y < Plane.extent q 1 16 → x < Plane.extent q 1 8 →
      m₁ (pictureByte true (sampleFrame false false).dstView q y x) =
        m₂ (pictureByte true (sampleFrame true true).dstView q y x) := by
  obtain ⟨m₁, hrun₁⟩ := sampleFrame_run false false fun _ => 100
  obtain ⟨m₂, hrun₂⟩ := sampleFrame_run true true fun _ => 100
  refine ⟨m₁, m₂, hrun₁, hrun₂, ?_⟩
  exact zimg_modes_agree.2.1 _ _ _ _ (sampleCtx_planned false false) 1 1 true (by decide) 2
    (by decide +kernel) flatLib 0 0 1 1 _ _ _ m₁ _ m₂ hrun₁ (sampleResult_apart false false) hrun₂
    (sampleResult_apart true true) fun _ _ _ _ _ => rfl

end AutoUpscale
