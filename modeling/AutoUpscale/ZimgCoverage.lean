/-
Every visible byte of the destination is written by exactly one cell.

- `zimg_grid_covers`: in every I/O mode a frame that reports success has written
  each byte of the three destination planes from one cell only, at its place in
  that cell's rectangle, and no other byte of the picture.
-/
import AutoUpscale.ZimgFrame

namespace AutoUpscale

open DisjointParallel PlaneMemory

instance (a : ℕ) : (s : CellStep) → Decidable (a ∈ s.writes)
  | .copy c => inferInstanceAs (Decidable (a ∈ bytes c.dst c.n))
  | .graph _ _ db p y x => inferInstanceAs (Decidable (a = db.addr p y x))

/-- The scratch memory of a frame. -/
def ZimgFrame.scratch (f : ZimgFrame) : Set ℕ :=
  {a | ∃ b q, b ≠ .srcPicture ∧ b ≠ .dstPicture ∧ a ∈ f.bytes b q}

/-- The visible memory of the destination picture. -/
def ZimgFrame.visible (f : ZimgFrame) : Set ℕ := {a | ∃ q, a ∈ f.bytes .dstPicture q}

section Writers

variable {ctx : ScalerCtx} {f : ZimgFrame} (h : FrameReady ctx f) {i : ℕ}
  (hi : i < f.priv.pool.nWorkers)

/-- What a cell may write is visible or scratch. -/
theorem ZimgFrame.owned_subset (f : ZimgFrame) (i : ℕ) : f.owned i ⊆ f.visible ∪ f.scratch := by
  rintro - ⟨l, ⟨huse, how⟩, rfl⟩
  have hmem : f.addr l ∈ f.bytes l.buffer l.plane := addr_mem_rect huse.2 huse.1
  by_cases hdst : l.buffer = .dstPicture
  · rw [hdst] at hmem
    exact .inl ⟨l.plane, hmem⟩
  · refine .inr ⟨l.buffer, l.plane, fun hsrc => ?_, hdst, hmem⟩
    rw [ZimgFrame.Owns, hsrc] at how
    exact how

include h hi in
/-- How often a cell writes a byte of its rectangle: once by copy-out, else as
often as its graph does. -/
theorem FrameReady.countP_writes (hapart : f.Apart) (lib : ZimgLib) {k : Plane × ℕ × ℕ}
    (hk : k ∈ rectDom (f.dstRect i)) :
    (f.cellSteps lib i).countP
        (fun s => decide (f.rectAddr .dstPicture (f.dstRect i) k ∈ s.writes)) =
      if f.priv.plan.dstZerocopy then (lib.writes (f.graph i) 0).count k else 1 := by
  set a := f.rectAddr .dstPicture (f.dstRect i) k with ha
  have hcopies : ∀ cs : List Memcpy, (cs.map CellStep.copy).countP (fun s => decide (a ∈ s.writes)) =
      cs.countP fun c => decide (a ∈ bytes c.dst c.n) := fun cs => List.countP_map
  have hin : (f.copyIn i).countP (fun c => decide (a ∈ bytes c.dst c.n)) = 0 := by
    by_cases hz : f.priv.plan.srcZerocopy = true
    · rw [ZimgFrame.copyIn, if_pos hz, List.countP_nil]
    have hz : f.priv.plan.srcZerocopy = false := Bool.not_eq_true _ ▸ hz
    rw [ZimgFrame.copyIn, if_neg (by simp [hz])]
    refine (h.copyIn_moves hi hapart hz).countP_eq_zero fun k' hk' heq => ?_
    have hbuf := (h.rectAddr_inj hapart (by decide) (h.dst_fits hi) (h.in_fits hi) hk hk' heq).1
    rw [ZimgFrame.inBuffer, hz] at hbuf
    exact absurd hbuf (by decide)
  -- the graph writes byte `k'` of its rectangle to one address
  have hgraph : (filterGraphProcess lib (f.graph i) (f.priv.workers i).sb (f.priv.workers i).db
      0).countP (fun s => decide (a ∈ s.writes)) = (lib.writes (f.graph i) 0).countP
        fun k' => decide (a = f.rectAddr (f.outBuffer i) (f.outRect i) k') := by
    rw [filterGraphProcess, List.countP_map]
    refine List.countP_congr fun k' _ => ?_
    simp only [Function.comp_apply, decide_eq_true_eq]
    rw [← h.db_addr hi k']
    rfl
  rw [ZimgFrame.cellSteps, List.countP_append, List.countP_append, hcopies, hcopies, hin, hgraph]
  by_cases hz : f.priv.plan.dstZerocopy = true
  · obtain ⟨hnil, haddr⟩ := h.emit_nil hi hz
    rw [hnil, if_pos hz, List.countP_nil, haddr, List.count, Nat.zero_add, Nat.add_zero]
    refine List.countP_congr fun k' hk' => ?_
    have hdom := f.graph_writes_within lib hk'
    rw [ZimgFrame.rectDom_outRect] at hdom
    simp only [decide_eq_true_eq, beq_iff_eq]
    refine ⟨fun heq => ?_, fun heq => by rw [heq]⟩
    exact ((h.rectAddr_inj hapart (by decide) (h.dst_fits hi) (h.dst_fits hi) hk hdom heq).2
      rfl).symm
  · have hz : f.priv.plan.dstZerocopy = false := Bool.not_eq_true _ ▸ hz
    rw [if_neg (by simp [hz]), (h.emit_moves hi hapart hz).once k hk]
    have hnone : (lib.writes (f.graph i) 0).countP (fun k' =>
        decide (a = f.rectAddr (f.outBuffer i) (f.outRect i) k')) = 0 := by
      refine List.countP_eq_zero.mpr fun k' hk' heq => ?_
      have hbuf := (h.rectAddr_inj hapart (by decide) (h.dst_fits hi) (h.out_fits hi) hk
        (f.graph_writes_within lib hk') (of_decide_eq_true heq)).1
      unfold ZimgFrame.outBuffer at hbuf
      rw [hz] at hbuf
      split at hbuf
      · cases hbuf
      · exact absurd hbuf (by decide)
    rw [hnone]

/-- The place of a byte of a cell's rectangle in the rectangle. -/
theorem ZimgFrame.rectAddr_dst (f : ZimgFrame) {i : ℕ} {q : Plane} {y x : ℕ}
    (hc : (f.dstRect i q).Holds y x) :
    (q, y - (f.dstRect i q).top, x - (f.dstRect i q).left) ∈ rectDom (f.dstRect i) ∧
      f.rectAddr .dstPicture (f.dstRect i)
        (q, y - (f.dstRect i q).top, x - (f.dstRect i q).left) = f.addr ⟨.dstPicture, q, y, x⟩ := by
  obtain ⟨⟨htop, hbottom⟩, hleft, hright⟩ := hc
  refine ⟨⟨?_, ?_⟩, ?_⟩
  · exact Nat.sub_lt_left_of_lt_add htop hbottom
  · exact Nat.sub_lt_left_of_lt_add hleft hright
  · simp only [ZimgFrame.rectAddr, FrameByte.ofRect]
    rw [Nat.add_sub_cancel' htop, Nat.add_sub_cancel' hleft]

end Writers

/-! ### A sample frame -/

/-- Planes in slots of their own do not overlap. -/
theorem ZimgFrame.apart_of_slots {f : ZimgFrame} (slot : FrameBuffer → Plane → ℕ) (size : ℕ)
    (hpitch : ∀ b q, f.cols b q ≤ ((f.view b).pitch q).toNat)
    (hslot : ∀ b q, 0 < f.rows b q → (f.view b).data q = slot b q * size ∧
      f.rows b q * ((f.view b).pitch q).toNat ≤ size)
    (hinj : ∀ b q b' q', slot b q = slot b' q' → (b, q) = (b', q')) : f.Apart := by
  intro b q b' q' _ hne
  rw [Set.disjoint_left]
  have hmem : ∀ {b q a}, a ∈ f.bytes b q → slot b q * size ≤ a ∧ a < (slot b q + 1) * size := by
    intro b q a ha
    have hpos : 0 < f.rows b q := by
      obtain ⟨y, hy, -⟩ := ha
      exact (Nat.zero_le y).trans_lt hy
    obtain ⟨hbase, hsize⟩ := hslot b q hpos
    obtain ⟨hlo, hhi⟩ := rect_subset_bytes (hpitch b q) ha
    rw [hbase] at hlo hhi
    rw [Nat.succ_mul]
    exact ⟨hlo, by omega⟩
  intro a ha ha'
  obtain ⟨hlo, hhi⟩ := hmem ha
  obtain ⟨hlo', hhi'⟩ := hmem ha'
  have h1 := Nat.lt_of_mul_lt_mul_right (hlo.trans_lt hhi')
  have h2 := Nat.lt_of_mul_lt_mul_right (hlo'.trans_lt hhi)
  exact hne (hinj b q b' q' (by omega))

/-- libzimg on pictures of one colour, which every filter keeps. -/
def flatLib : ZimgLib where
  output _ img q _ _ := img q 0 0
  writes g rc :=
    if rc ≠ 0 then [] else
      [Plane.y, .u, .v].flatMap fun q => (List.range (g.dstFmt.planeHeight q)).flatMap fun y =>
        (List.range (g.dstFmt.planeWidth q)).map fun x => (q, y, x)
  writes_within g rc q y x h := by
    split at h
    · cases h
    · simp only [List.mem_flatMap, List.mem_map, List.mem_range, Prod.mk.injEq] at h
      obtain ⟨q', -, y', hy, x', hx, rfl, rfl, rfl⟩ := h
      exact ⟨hy, hx⟩
  writes_all g q y x hy hx := by
    rw [if_neg (by decide)]
    simp only [List.mem_flatMap, List.mem_map, List.mem_range, Prod.mk.injEq]
    exact ⟨q, by cases q <;> simp, y, hy, x, hx, rfl, rfl, rfl⟩

/-- A planar picture whose planes start at multiples of 4096 from `base` on. -/
def slotPicture (chroma base w h : ℕ) : Picture :=
  { chroma := chroma, width := w, height := h, visibleWidth := w, visibleHeight := h, planes := 3
    p := fun i => ⟨some ((base + i) * 4096), 32, h, 1⟩ }

/-- Everything succeeds; scratch planes go to the slots 6 to 11. -/
def smoothOutcome : ZimgOutcome :=
  { start := ⟨true, true, true, true, fun _ => true, fun _ => true, ⟨true, fun _ => true⟩⟩
    allocs := ⟨fun q => some ((6 + q.index) * 4096), fun q => some ((9 + q.index) * 4096),
      fun _ _ => none, fun _ => true, fun _ => true⟩
    gateOk := true
    rc := fun _ => 0
    stop := ⟨true, fun _ => true⟩ }

/-- The slot of a plane. -/
def slotOf (swap : Bool) : FrameBuffer → Plane → ℕ
  | .srcPicture, q => chromaPhysicalPlaneIndex q.index swap
  | .dstPicture, q => 3 + chromaPhysicalPlaneIndex q.index swap
  | .srcScratch, q => 6 + q.index
  | .dstScratch, q => 9 + q.index
  | .tile i, q => 12 + 3 * i + q.index

theorem slotOf_inj (swap : Bool) (b : FrameBuffer) (q : Plane) (b' : FrameBuffer) (q' : Plane)
    (h : slotOf swap b q = slotOf swap b' q') : (b, q) = (b', q') := by
  -- three slots for each buffer, and different ones for its planes
  have hindex : ∀ p : Plane, p.index < 3 := by
    intro p
    cases p <;> decide
  have hplane : ∀ p p' : Plane, p.index = p'.index → p = p' := by
    intro p p'
    cases p <;> cases p' <;> decide
  have hphysicalPlane : ∀ (b : Bool) (p p' : Plane),
      chromaPhysicalPlaneIndex p.index b = chromaPhysicalPlaneIndex p'.index b → p = p' := by
    intro b p p'
    cases b <;> cases p <;> cases p' <;> decide
  have := hindex q
  have := hindex q'
  have := (chromaPhysicalPlaneIndex_lt q swap).1
  have := (chromaPhysicalPlaneIndex_lt q' swap).1
  cases b <;> cases b' <;> simp only [slotOf] at h
  case srcPicture.srcPicture => rw [hphysicalPlane swap q q' h]
  case dstPicture.dstPicture => rw [hphysicalPlane swap q q' (by omega)]
  case srcScratch.srcScratch => rw [hplane q q' (by omega)]
  case dstScratch.dstScratch => rw [hplane q q' (by omega)]
  case tile.tile i j =>
    obtain rfl : i = j := by omega
    rw [hplane q q' (by omega)]
  all_goals omega

/-- A 2x4 YV12 picture scaled to 8x16 by at most two workers. -/
def sampleCtx (srcZerocopy zerocopy : ℤ) : ScalerCtx :=
  { srcW := 2, srcH := 4, srcCodedW := 2, srcCodedH := 4, srcXOffset := 0, srcYOffset := 0
    dstW := 8, dstH := 16, algo := 0, threadsPref := 2, pinCpus := false, minStripeLines := 2
    zerocopy := zerocopy, srcZerocopy := srcZerocopy, chroma := fourcc 'Y' 'V' '1' '2' }

def sampleSrc : Picture := slotPicture (fourcc 'Y' 'V' '1' '2') 0 2 4
def sampleDst : Picture := slotPicture (fourcc 'Y' 'V' '1' '2') 3 8 16

def samplePriv (s d : Bool) : ZimgPriv :=
  (zimgOpen (sampleCtx s.toInt d.toInt) 2 true true).get (by cases s <;> cases d <;> decide)

def sampleViews (s d : Bool) : PictureView × PictureView :=
  (zimgFrameViewsInit (sampleCtx s.toInt d.toInt) (some sampleSrc) (some sampleDst)).get (by
    cases s <;> cases d <;> decide)

def sampleResult (s d : Bool) : ZimgProcessed :=
  zimgProcess (sampleCtx s.toInt d.toInt) (samplePriv s d) (some sampleSrc) (some sampleDst)
    smoothOutcome

theorem sampleCtx_planned (s d : Bool) :
    planOpen ⟨fourcc 'Y' 'V' '1' '2', 2, 4, 2, 4, 0, 0⟩
        ⟨1, 0, 0, 0, 0, 2, 0, d.toInt, s.toInt, 2⟩ 8 =
      some (sampleCtx s.toInt d.toInt) := by
  cases s <;> cases d <;> decide +kernel

theorem samplePriv_reachable (s d : Bool) :
    ZimgReachable (sampleCtx s.toInt d.toInt) 2 (samplePriv s d) :=
  .open (show zimgOpen (sampleCtx s.toInt d.toInt) 2 true true = some (samplePriv s d) from by
    rw [samplePriv, Option.some_get])

theorem sampleViews_eq (s d : Bool) :
    zimgFrameViewsInit (sampleCtx s.toInt d.toInt) (some sampleSrc) (some sampleDst) =
      some ((sampleViews s d).1, (sampleViews s d).2) := by
  rw [sampleViews, Prod.mk.eta, Option.some_get]

theorem sampleResult_status (s d : Bool) : (sampleResult s d).status = .ok := by
  cases s <;> cases d <;> decide +kernel

theorem sampleResult_workers (s d : Bool) : (sampleResult s d).priv.pool.nWorkers = 2 := by
  cases s <;> cases d <;> decide +kernel

theorem sampleResult_plan (s d : Bool) :
    (sampleResult s d).priv.plan = ⟨2, 1, 2, false, s, d⟩ := by
  cases s <;> cases d <;> decide +kernel

theorem sampleResult_ends (s d : Bool) (m : Memory) :
    ∃ m', (sampleResult s d).Ends flatLib smoothOutcome.rc m m' := by
  obtain ⟨m', hrun⟩ := exists_interleaving (CellStep.run flatLib)
    (fun i : Fin (sampleResult s d).priv.pool.nWorkers =>
      (sampleResult s d).priv.cellRun flatLib smoothOutcome.rc i) m
  refine ⟨m', ?_⟩
  have hdisp : (sampleResult s d).dispatched = true := by
    cases s <;> cases d <;> decide +kernel
  rw [ZimgProcessed.Ends, hdisp, if_neg (by decide)]
  exact fun _ => hrun

theorem sampleResult_apart (s d : Bool) :
    ZimgFrame.Apart ⟨(sampleResult s d).priv, (sampleViews s d).1, (sampleViews s d).2⟩ := by
  obtain ⟨srcView, dstView, hviews, hdisp⟩ := zimgProcess_ok
    (zimgReachable_inv (samplePriv_reachable s d)) (sampleResult_status s d)
  have hready := hdisp.frameReady (planOpen_spec (sampleCtx_planned s d)) hviews
  obtain ⟨rfl, rfl⟩ := Prod.mk.inj (Option.some.inj ((sampleViews_eq s d).symm.trans hviews))
  refine ZimgFrame.apart_of_slots (slotOf true) 4096 hready.pitch ?_
    (slotOf_inj true)
  intro b q hpos
  have hplan := sampleResult_plan s d
  cases b with
  | tile i => simp [ZimgFrame.rows, ZimgFrame.size, hplan] at hpos
  | _ =>
    revert hpos
    cases q <;> cases s <;> cases d <;> decide +kernel

/-! ### The grid covers the picture -/

/-- Byte `x` of row `y` of plane `q` of a picture, wherever the picture keeps
that plane. -/
def pictureByte (swap : Bool) (view : PictureView) (q : Plane) (y x : ℕ) : ℕ :=
  addr (view.plane (chromaPhysicalPlaneIndex q.index swap)).pixels
    (view.plane (chromaPhysicalPlaneIndex q.index swap)).pitch.toNat y x

/-- The planes of a picture, under the components they store. -/
def storedPlanes (chroma : ℕ) (view : PictureView) : PlaneView where
  data q := (view.plane (storedPlane chroma q.index)).pixels
  pitch q := (view.plane (storedPlane chroma q.index)).pitch

/-- Byte `x` of row `y` of component `q`, in the plane that stores it. -/
def storedByte (chroma : ℕ) (view : PictureView) (q : Plane) (y x : ℕ) : ℕ :=
  addr (view.plane (storedPlane chroma q.index)).pixels
    (view.plane (storedPlane chroma q.index)).pitch.toNat y x

section Stored

variable {chroma : ℕ} {swap : Bool} (h : swap = true ↔ chroma = fourcc 'Y' 'V' '1' '2')
  (view : PictureView)

include h in
theorem storedPlanes_eq : storedPlanes chroma view = picturePlanes swap view := by
  unfold storedPlanes picturePlanes
  simp only [chromaPhysicalPlaneIndex_eq h]

include h in
theorem storedByte_eq : storedByte chroma view = pictureByte swap view := by
  unfold storedByte pictureByte
  simp only [chromaPhysicalPlaneIndex_eq h]

end Stored

/-- **The grid writes every visible destination byte from exactly one cell.**

`p` is any backend a caller can hold and `r` a frame that reports success, so
that every cell was dispatched and every graph returned 0.  The planes of both
pictures are named by number. -/
theorem zimg_grid_covers {fmt : VideoFormat} {cfg : Config} {cores : ℤ} {ctx : ScalerCtx}
    (hplan : planOpen fmt cfg cores = some ctx) {subW subH : ℕ} {swap : Bool}
    (hchroma : chromaToZimg ctx.chroma = some (subW, subH, swap)) {workerBudget : ℤ}
    {p : ZimgPriv} (hp : ZimgReachable ctx workerBudget p) {src dst : Option Picture}
    {srcView dstView : PictureView}
    (hviews : zimgFrameViewsInit ctx src dst = some (srcView, dstView)) {o : ZimgOutcome}
    {r : ZimgProcessed} (hr : r = zimgProcess ctx p src dst o) (hok : r.status = .ok)
    {f : ZimgFrame} (hf : f = ⟨r.priv, srcView, dstView⟩) (hapart : f.Apart)
    {lib : ZimgLib} {m m' : Memory} (hends : r.Ends lib o.rc m m') :
    (swap = true ↔ ctx.chroma = fourcc 'Y' 'V' '1' '2') ∧
      (∀ i : ℕ, i < r.priv.pool.nWorkers →
        zimgCellBounds r.priv.plan ctx.geom i = some (f.cell i)) ∧
      (∀ q y x, y < q.extent subH ctx.dstH → x < q.extent subW ctx.dstW →
        ∃ i < r.priv.pool.nWorkers, ((f.cell i).dstRect subW subH q).Holds y x ∧
          (∀ j < r.priv.pool.nWorkers, (∃ s ∈ r.priv.cellRun lib o.rc j,
            storedByte ctx.chroma dstView q y x ∈ s.writes) ↔ j = i) ∧
          ((r.priv.cellRun lib o.rc i).countP
              fun s => decide (storedByte ctx.chroma dstView q y x ∈ s.writes)) =
            (if r.priv.plan.dstZerocopy then (lib.writes (f.graph i) 0).count
              (q, y - ((f.cell i).dstRect subW subH q).top,
                x - ((f.cell i).dstRect subW subH q).left) else 1) ∧
          m' (storedByte ctx.chroma dstView q y x) =
            lib.output (f.graph i)
              (sourceImage m (storedPlanes ctx.chroma srcView) ((f.cell i).srcRect ctx.srcW subW subH))
              q (y - ((f.cell i).dstRect subW subH q).top)
              (x - ((f.cell i).dstRect subW subH q).left)) ∧
      (∀ i < r.priv.pool.nWorkers, ∀ s ∈ r.priv.cellRun lib o.rc i,
        s.writes ⊆ f.visible ∪ f.scratch) ∧
      ∀ a ∉ f.visible ∪ f.scratch, m' a = m a := by
  have hctx := planOpen_spec hplan
  subst hr hf
  obtain ⟨srcView', dstView', hviews', hdisp⟩ := zimgProcess_ok (zimgReachable_inv hp) hok
  obtain ⟨rfl, rfl⟩ := Prod.mk.inj (Option.some.inj (hviews.symm.trans hviews'))
  have h := hdisp.frameReady hctx hviews
  set r := zimgProcess ctx p src dst o
  obtain ⟨rfl, rfl, rfl⟩ : subW = r.priv.subW ∧ subH = r.priv.subH ∧
      swap = r.priv.yv12SwapUv := by
    simpa using hchroma.symm.trans h.grid.chroma
  have hbyte := storedByte_eq (chromaToZimg_swap hchroma) dstView
  have hplanes := storedPlanes_eq (chromaToZimg_swap hchroma) srcView
  rw [hbyte, hplanes]
  -- the frame was dispatched and completed, so the memory is that of some schedule
  have hrun := hends
  rw [ZimgProcessed.Ends, hdisp.dispatched, if_neg (by decide)] at hrun
  have hrun := hrun hdisp.completed
  have hsep := h.separated hdisp.rc lib hapart
  have hsteps : ∀ i < r.priv.pool.nWorkers, r.priv.cellRun lib o.rc i =
      ZimgFrame.cellSteps ⟨r.priv, srcView, dstView⟩ lib i := fun i hi =>
    h.cellRun_eq hi lib (hdisp.rc i hi)
  have hgeom : ctx.geom = r.priv.geom := h.geom.symm
  refine ⟨chromaToZimg_swap hchroma, fun i hi => ?_, fun q y x hy hx => ?_, fun i hi s hs => ?_,
    fun a ha => ?_⟩
  · rw [hgeom]
    exact h.bounds i hi
  · -- the cell of the byte
    obtain ⟨i, hi, hcell⟩ := h.grid.exists_dstRect hy hx
    rw [← h.count] at hi
    rw [← h.cell_eq] at hcell
    obtain ⟨hk, haddr⟩ := ZimgFrame.rectAddr_dst ⟨r.priv, srcView, dstView⟩ hcell
    have hcount := h.countP_writes hi hapart lib hk
    have hout := h.output hdisp.rc hapart hrun hi hk
    rw [haddr] at hcount hout
    have huse : ZimgFrame.InUse ⟨r.priv, srcView, dstView⟩ ⟨.dstPicture, q, y, x⟩ := by
      simp only [ZimgFrame.InUse, ZimgFrame.rows, ZimgFrame.cols, ZimgFrame.size, ← hgeom]
      exact ⟨hy, hx⟩
    refine ⟨i, hi, hcell, fun j hj => ⟨?_, ?_⟩, ?_, ?_⟩
    · -- the writer owns the byte, and a byte has one owner
      rintro ⟨s, hs, hmem⟩
      rw [hsteps j hj] at hs
      obtain ⟨l, ⟨hluse, hlown⟩, hladdr⟩ := (h.cellSteps_confined hj hapart lib hs).2 hmem
      obtain rfl := h.addr_inj hapart huse hluse (by simp) hladdr.symm
      exact h.owner_unique hj hi huse hlown hcell
    · -- the graph has an output for every position of its cell
      rintro rfl
      have hpos : 0 < (ZimgFrame.cellSteps ⟨r.priv, srcView, dstView⟩ lib j).countP
          (fun s => decide (pictureByte r.priv.yv12SwapUv dstView q y x ∈ s.writes)) := by
        refine lt_of_lt_of_eq ?_ hcount.symm
        split
        · exact List.count_pos_iff.mpr (lib.writes_all _ _ _ _ hk.1 hk.2)
        · exact one_pos
      obtain ⟨s, hs, hmem⟩ := List.countP_pos_iff.mp hpos
      rw [hsteps j hj]
      exact ⟨s, hs, of_decide_eq_true hmem⟩
    · rw [hsteps i hi]
      exact hcount
    · have hsrcW : ctx.srcW = r.priv.geom.srcW := by rw [← hgeom]; rfl
      rw [hsrcW]
      exact hout
  · rw [hsteps i hi] at hs
    exact (h.cellSteps_confined hi hapart lib hs).2.trans (ZimgFrame.owned_subset _ i)
  · exact hrun.frame hsep fun i hmem => ha (ZimgFrame.owned_subset _ i hmem)

/-- Two stripes of a zero-copy frame. -/
theorem zimg_grid_covers_yv12 : ∃ m', (sampleResult true true).Ends flatLib smoothOutcome.rc
    (fun _ => 100) m' ∧
    ∀ q y x, y < Plane.extent q 1 16 → x < Plane.extent q 1 8 → ∃ i < 2, ∀ j < 2,
      (∃ s ∈ (sampleResult true true).priv.cellRun flatLib smoothOutcome.rc j,
        storedByte (fourcc 'Y' 'V' '1' '2') (sampleViews true true).2 q y x ∈ s.writes) ↔
          j = i := by
  obtain ⟨m', hends⟩ := sampleResult_ends true true (fun _ => 100)
  obtain ⟨-, -, hcover, -⟩ := zimg_grid_covers (sampleCtx_planned true true)
    (show chromaToZimg (sampleCtx 1 1).chroma = some (1, 1, true) from by decide)
    (samplePriv_reachable true true)
    (sampleViews_eq true true) (r := sampleResult true true) rfl (sampleResult_status true true)
    rfl (sampleResult_apart true true) hends
  refine ⟨m', hends, fun q y x hy hx => ?_⟩
  obtain ⟨i, hi, -, hone, -⟩ := hcover q y x hy hx
  rw [sampleResult_workers] at hi hone
  exact ⟨i, hi, hone⟩

end AutoUpscale
