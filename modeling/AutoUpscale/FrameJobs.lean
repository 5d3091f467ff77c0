/-
Frames on the real gate.

`UsmPool` and `ZimgBackend` say which memories a frame can leave by way of the
interleavings of its workers' steps, and leave open how the gate brings them
about.  Here the steps are the jobs of a dispatch (`PoolJobs`), one at a time and
between any steps of the gate.

- `UsmApplied.ends_on_gate`, `ZimgProcessed.ends_on_gate`: the gate leaves a
  frame in one of those memories.
- `FramePlanes.partway`: sweeps of which some have been run and some have not
  begun leave every row sharpened or as it was.
- `usm_on_gate`: a call whose dispatch returns 0 leaves the whole plane
  sharpened; one whose dispatch fails tears no row, in place or not.
-/
import AutoUpscale.PoolJobs
import AutoUpscale.UsmInPlace
import AutoUpscale.ZimgBackend

namespace AutoUpscale

open DisjointParallel GridPartition LabelledTrace PlaneMemory

/-! ### The memories a frame can leave -/

section Ends

variable {n : ℕ} {pre mid : List (JobEvent n)} {ok : Bool}

theorem UsmApplied.ends_on_gate {r : UsmApplied} {d d₁ d₂ d' : JobState n RowStep ℕ UInt8}
    (hdispatched : r.dispatched = true) (hstatus : r.status = .ok → ok = true)
    (hn : n = r.pool.pool.nWorkers) (hpre : JobRun RowStep.run pre d)
    (hmemory : d.memory = r.memory) (hjob : ∀ i, d.job i = usmWorkerSweep (r.pool.workers i))
    (hcall : JobStep RowStep.run d (.gate .dispatch) d₁)
    (hmid : Execution (JobStep RowStep.run) d₁ mid d₂) (hopen : ∀ ok, .gate (.ret ok) ∉ mid)
    (hret : JobStep RowStep.run d₂ (.gate (.ret ok)) d') : r.Ends d'.memory := by
  subst hn
  obtain ⟨left, hpart, hok, -⟩ := jobs_at_return hpre hcall hmid hopen hret
  rw [UsmApplied.Ends, hdispatched, if_neg (by simp)]
  intro hs
  have hrun := hpart.interleaving (hok (hstatus hs))
  rwa [hmemory, show d.job = _ from funext hjob] at hrun

theorem ZimgProcessed.ends_on_gate {lib : ZimgLib} {r : ZimgProcessed} {rc : ℕ → ℤ}
    {d d₁ d₂ d' : JobState n CellStep ℕ UInt8} (hdispatched : r.dispatched = true)
    (hcompleted : r.completed = true → ok = true) (hn : n = r.priv.pool.nWorkers)
    (hpre : JobRun (CellStep.run lib) pre d)
    (hjob : ∀ i : Fin n, d.job i = r.priv.cellRun lib rc i)
    (hcall : JobStep (CellStep.run lib) d (.gate .dispatch) d₁)
    (hmid : Execution (JobStep (CellStep.run lib)) d₁ mid d₂)
    (hopen : ∀ ok, .gate (.ret ok) ∉ mid)
    (hret : JobStep (CellStep.run lib) d₂ (.gate (.ret ok)) d') :
    r.Ends lib rc d.memory d'.memory := by
  subst hn
  obtain ⟨left, hpart, hok, -⟩ := jobs_at_return hpre hcall hmid hopen hret
  rw [ZimgProcessed.Ends, hdispatched, if_neg (by simp)]
  intro hs
  have hrun := hpart.interleaving (hok (hcompleted hs))
  rwa [show d.job = _ from funext hjob] at hrun

end Ends

/-! ### The sweeps of a call -/

section Frame

variable {p : UsmPool} {k dst ds src ss : ℕ} {amountQ8 : ℤ} {m m₁ m' : Memory}
  {left : Fin k → List RowStep}

/-- Every row belongs to one worker; it is sharpened when that worker has swept
its stripe and as before when it has not begun. -/
theorem FramePlanes.partway (hp : FramePlanes p dst ds src ss) (hw : 0 < p.width)
    (hpos : 0 < k) (hk : k ≤ p.height) (hkp : k ≤ p.nThreadsPref.toNat)
    (hready : ∀ i < k, SlotReady p k i) (hmem : ∀ a ∉ p.scratchRect, m₁ a = m a)
    (hsnap : dst = src → ∀ i < k, Snapshot (p.workers i) p.height src ss m m₁)
    (hrun : Partway RowStep.run (fun i : Fin k =>
      usmWorkerSweep ((p.workers i).framed p.height dst ds src ss amountQ8)) m₁ left m') :
    (∀ y < p.height, ∃ i : Fin k,
      (left i = [] → ∀ x < p.width, m' (addr dst ds y x) =
        usmAt (planeAt m src ss) p.width p.height amountQ8 y x) ∧
      (left i = usmWorkerSweep ((p.workers i).framed p.height dst ds src ss amountQ8) →
        ∀ x < p.width, m' (addr dst ds y x) = m (addr dst ds y x))) ∧
      ∀ a ∉ rect dst ds p.width p.height, a ∉ p.scratchRect → m' a = m a := by
  have hsep := hp.separated amountQ8 hw hk hkp hready
  obtain ⟨m'', hall, hdone⟩ := hrun.complete hsep
  obtain ⟨hval, hframe⟩ := hp.interleaving_eq hw hpos hk hkp hready hmem hsnap hall
  refine ⟨fun y hy => ?_, fun a ha ha' => ?_⟩
  · -- the worker whose stripe holds row `y`
    obtain ⟨i, hi, hband⟩ := (stripeCuts hpos p.height).exists_band hy
    have hslot := hready i hi
    have hrow := (hslot.mem_band hpos).mp hband
    have hmine : ∀ x < p.width, addr dst ds y x ∈ (p.workers i).scratchRect ∪
        ((p.workers i).framed p.height dst ds src ss amountQ8).stripe := fun x hx =>
      .inr (addr_mem_pixels (show x < (p.workers i).width from hslot.width ▸ hx) hrow)
    refine ⟨⟨i, hi⟩, fun hnil x hx => ?_, fun hfull x hx => ?_⟩
    · rw [hdone ⟨i, hi⟩ hnil (.inr (hmine x hx)), hval y hy x hx]
    · rw [hrun.eqOn_start hsep hfull (.inr (hmine x hx))]
      exact hmem _ fun h => Set.disjoint_left.mp hp.scratchDst h (addr_mem_rect hx hy)
  · rw [hrun.frame hsep fun i hin => ?_]
    · exact hmem a ha'
    · have hslot := hready i i.isLt
      rcases hin with h | h
      · exact ha' (hslot.scratchRect_subset (i.isLt.trans_le hkp) h)
      · refine ha (pixels_mono (fun x hx => ?_) (fun r hr => ?_) h)
        · exact hslot.width ▸ hx
        · exact lt_of_lt_of_le hr.2 (hslot.stripe i.isLt hk).2

end Frame

/-- What a call that dispatches workers has done before. -/
theorem usmPoolApply_dispatched {p : UsmPool} {c : UsmCall} {o : UsmOutcome} {m : Memory}
    {dst src : ℕ} (hdst : c.dst = some dst) (hsrc : c.src = some src)
    (h : (usmPoolApply p c o m).dispatched = true) :
    usmPoolValidateArgs p c = true ∧ (usmPoolEnsureStarted p o.start).1 = true ∧
      let f := usmPoolSetPerFrame m (usmPoolEnsureStarted p o.start).2 dst c.dstStride.toNat src
        c.srcStride.toNat (clampAmountQ8 c.amountQ8)
      (usmPoolApply p c o m).memory = f.1 ∧ (usmPoolApply p c o m).pool.workers = f.2.workers ∧
        (usmPoolApply p c o m).pool.pool.nWorkers =
          (usmPoolEnsureStarted p o.start).2.pool.nWorkers := by
  by_cases hvalid : usmPoolValidateArgs p c = true
  swap
  · simp [usmPoolApply, hdst, hsrc, hvalid] at h
  by_cases hbroken : p.pool.broken = true
  · simp [usmPoolApply, hdst, hsrc, hvalid, hbroken] at h
  by_cases hzero : clampAmountQ8 c.amountQ8 = 0
  · simp [usmPoolApply, hdst, hsrc, hvalid, hbroken, hzero] at h
  by_cases hstart : (usmPoolEnsureStarted p o.start).1 = true
  swap
  · simp [usmPoolApply, hdst, hsrc, hvalid, hbroken, hzero, hstart] at h
  have hframe := workerPoolDispatch_frame (usmPoolSetPerFrame m (usmPoolEnsureStarted p o.start).2
    dst c.dstStride.toNat src c.srcStride.toNat (clampAmountQ8 c.amountQ8)).2.pool o.gateOk o.stop
  refine ⟨hvalid, hstart, ?_⟩
  simp only [usmPoolApply, hdst, hsrc, hvalid, hbroken, hzero, hstart, if_false,
    Bool.true_eq_false, Bool.false_eq_true]
  refine ⟨trivial, trivial, ?_⟩
  rw [hframe.rest, usmPoolSetPerFrame_pool]

/-- **A frame on the gate.**  The workers' sweeps run as the jobs of the dispatch
that `up_usm_pool_apply` makes, from the memory in which it left the call's
snapshots.  When the dispatch returns 0 the destination is the whole source plane
sharpened.  When it fails and every thread was joined, each row is sharpened
over its whole width or not touched at all.  Nothing beside the destination and
the scratch changes in either case. -/
theorem usm_on_gate {nThreads width height stripeMinRows : ℤ} {p : UsmPool}
    (hp : UsmReachable nThreads width height stripeMinRows p) {c : UsmCall} {o : UsmOutcome}
    {m : Memory} {dst src n : ℕ} (hdst : c.dst = some dst) (hsrc : c.src = some src)
    (hoverlap : dst = src ∨ Disjoint (rect dst c.dstStride.toNat width.toNat height.toNat)
      (rect src c.srcStride.toNat width.toNat height.toNat))
    (hscratchDst : Disjoint p.scratchRect
      (rect dst c.dstStride.toNat width.toNat height.toNat))
    (hscratchSrc : Disjoint p.scratchRect
      (rect src c.srcStride.toNat width.toNat height.toNat))
    (happly : (usmPoolApply p c o m).dispatched = true)
    (hn : n = (usmPoolApply p c o m).pool.pool.nWorkers)
    {pre mid : List (JobEvent n)} {d d₁ d₂ d' : JobState n RowStep ℕ UInt8} {ok : Bool}
    (hpre : JobRun RowStep.run pre d) (hmemory : d.memory = (usmPoolApply p c o m).memory)
    (hjob : ∀ i, d.job i = usmWorkerSweep ((usmPoolApply p c o m).pool.workers i))
    (hcall : JobStep RowStep.run d (.gate .dispatch) d₁)
    (hmid : Execution (JobStep RowStep.run) d₁ mid d₂) (hopen : ∀ ok, .gate (.ret ok) ∉ mid)
    (hret : JobStep RowStep.run d₂ (.gate (.ret ok)) d') :
    let sharpened := usmAt (planeAt m src c.srcStride.toNat) width.toNat height.toNat
      (clampAmountQ8 c.amountQ8)
    (ok = true → ∀ y < height.toNat, ∀ x < width.toNat,
        d'.memory (addr dst c.dstStride.toNat y x) = sharpened y x) ∧
      (.gate (.fault .join) ∉ pre ++ mid → ∀ y < height.toNat,
        (∀ x < width.toNat, d'.memory (addr dst c.dstStride.toNat y x) = sharpened y x) ∨
        ∀ x < width.toNat, d'.memory (addr dst c.dstStride.toNat y x) =
          m (addr dst c.dstStride.toNat y x)) ∧
      ∀ a ∉ rect dst c.dstStride.toNat width.toNat height.toNat, a ∉ p.scratchRect →
        d'.memory a = m a := by
  obtain ⟨hinv, hw, hh⟩ := usmReachable_inv hp
  subst hw hh
  simp only [Int.toNat_natCast] at *
  obtain ⟨hvalid, hstart, hmem₁, hworkers, hnWorkers⟩ :=
    usmPoolApply_dispatched hdst hsrc happly
  obtain ⟨hd, hs, hstride⟩ := usmPoolValidateArgs_spec hdst hsrc hvalid
  obtain ⟨hinv₁, hsame, hdone⟩ := usmPoolEnsureStarted_inv hinv o.start
  have hplanes : FramePlanes (usmPoolEnsureStarted p o.start).2 dst c.dstStride.toNat src
      c.srcStride.toNat := by
    refine FramePlanes.congr ⟨by omega, by omega, ?_, hscratchDst, hscratchSrc⟩ hsame
    exact hoverlap.imp_left fun heq => ⟨heq, by rw [hstride heq]⟩
  set p₁ := (usmPoolEnsureStarted p o.start).2
  obtain ⟨hnThreads, hpos, hle, hready⟩ := hinv₁.ready (hdone hstart)
  have hprefLe := hinv₁.prefLe
  have hk : p₁.pool.nWorkers ≤ p₁.height := by omega
  have hkp : p₁.pool.nWorkers ≤ p₁.nThreadsPref.toNat := by omega
  obtain ⟨hmem, hsnap⟩ := setPerFrameUpTo_memory m dst c.dstStride.toNat
    (clampAmountQ8 c.amountQ8) hk hkp hready hplanes.scratchSrc le_rfl
  have hframes : usmPoolSetPerFrame m p₁ dst c.dstStride.toNat src c.srcStride.toNat
      (clampAmountQ8 c.amountQ8) = setPerFrameUpTo m p₁ dst c.dstStride.toNat src
        c.srcStride.toNat (clampAmountQ8 c.amountQ8) p₁.pool.nWorkers := by
    rw [show p₁.pool.nWorkers = p₁.nThreads.toNat by omega]
    rfl
  -- the jobs are the framed sweeps of the workers that came up
  rw [hframes] at hmem₁ hworkers
  rw [hmem₁] at hmemory
  rw [setPerFrameUpTo_pool] at hworkers
  obtain rfl : n = p₁.pool.nWorkers := hn.trans hnWorkers
  have hsweeps : d.job = fun i : Fin p₁.pool.nWorkers => usmWorkerSweep
      ((p₁.workers i).framed p₁.height dst c.dstStride.toNat src c.srcStride.toNat
        (clampAmountQ8 c.amountQ8)) := by
    funext i
    rw [hjob i, hworkers]
    simp only [i.isLt, if_true]
  obtain ⟨left, hpart, hok, hfail⟩ := jobs_at_return hpre hcall hmid hopen hret
  rw [hsweeps, hmemory] at hpart
  obtain ⟨hrows, hframe⟩ := hplanes.partway hinv₁.width hpos hk hkp hready hmem hsnap hpart
  rw [hsame.width, hsame.height] at hrows hframe
  rw [hsame.scratchRect] at hframe
  refine ⟨fun h y hy x hx => ?_, fun hno y hy => ?_, hframe⟩
  · obtain ⟨i, hdone, -⟩ := hrows y hy
    exact hdone (hok h i) x hx
  · obtain ⟨i, hdone, hnone⟩ := hrows y hy
    rcases hfail hno i with hnil | hfull
    · exact .inl (hdone hnil)
    · refine .inr (hnone ?_)
      rw [hfull, hsweeps, hsame.height]

/-- Two workers sharpen a 2x2 plane in place, one of them late at the gate. -/
theorem usm_on_gate_lateArrival :
    ∃ p pre, ∃ d d' : JobState 2 RowStep ℕ UInt8, UsmReachable 2 2 2 1 p ∧
      JobRun RowStep.run pre d ∧
      ∀ y < 2, ∀ x < 2, d'.memory (addr 0 3 y x) =
        usmAt (planeAt UInt8.ofNat 0 3) 2 2 (clampAmountQ8 128) y x := by
  set p : UsmPool :=
    { nThreads := 2, nThreadsPref := 2, width := 2, height := 2, scratch := 100
      workers := fun _ => default, pool := workerPoolConfig 2 false } with hp
  have hreach : UsmReachable 2 2 2 1 p := .create (show usmPoolCreate 2 2 2 1 true 100 = some p from rfl)
  set r := usmPoolApply p ⟨some 0, 3, some 0, 3, 128⟩
    ⟨⟨true, true, true, true, fun _ => true, fun _ => true, ⟨true, fun _ => true⟩⟩, true,
      ⟨true, fun _ => true⟩⟩ UInt8.ofNat with hr
  have hdispatched : r.dispatched = true := by
    rw [hr, hp]
    decide
  have hworkers : 2 = r.pool.pool.nWorkers := by
    rw [hr, hp]
    decide
  obtain ⟨pre, mid, d, d₁, d₂, d', hpre, hmemory, hjob, hcall, hmid, hopen, hret⟩ :=
    exists_lateArrival RowStep.run r.memory fun i => usmWorkerSweep (r.pool.workers i)
  refine ⟨p, pre, d, d', hreach, hpre, ?_⟩
  exact (usm_on_gate hreach rfl rfl (.inl rfl)
    (rect_disjoint_of_le (by decide) (by decide)).symm
    (rect_disjoint_of_le (by decide) (by decide)).symm hdispatched hworkers hpre hmemory
    (fun i => by rw [hjob]) hcall hmid hopen hret).1 rfl

end AutoUpscale
