/-
Every allocation of the zimg backend and its free (`src/scaler_zimg.c`, the storage half
of `src/worker_pool.h` and `src/pool_gate.h`).

The state is the backend's own, with the tmp pointers of the slots and the log of all
allocations and frees beside it.  `ZimgHeap.Holds` reads off the pointers which blocks the
backend holds.  Each function that allocates or frees has its log under its own name; the
triples say which blocks it takes the backend from and to.

- `allocPlaneBuffer_transfers`, `freePlaneBuffer_transfers`: the plane buffers.
- `zimgPoolConstruct_transfers`, `zimgPoolRelease_transfers`: one slot.
- `poolSetup_transfers`, `poolFree_transfers`: the pool's own storage.
-/
import AutoUpscale.CpuPinning
import AutoUpscale.HeapLedger

namespace AutoUpscale

open LabelledTrace HeapLedger

/-! ### Blocks -/

/-- The pthread objects of `up_pool_gate_t`, and the attributes of its `done_cv`. -/
inductive GateObject
  | lock | cv | doneLock | doneCv | attr
  deriving DecidableEq

/-- What the backend allocates; `workers` and `threads` are the arrays of its pool. -/
inductive ZimgBlock
  | priv
  | scratch (side : WorkerViewSide) (q : Plane)
  | tile (i : ℕ) (q : Plane)
  | graph (i : ℕ)
  | tmp (i : ℕ)
  | workers
  | threads
  | gate (x : GateObject)
  deriving DecidableEq

abbrev ZimgHeapLog := List (HeapEvent ZimgBlock)

/-! ### Plane buffers -/

/-- The allocations of `alloc_plane_buffer`; the address 0 is NULL, which is no block. -/
def allocPlanesLog (block : Plane → ZimgBlock) (alloc : Plane → Option ℕ) :
    List Plane → PlaneBuffer → ZimgHeapLog
  | [], _ => []
  | p :: ps, buffer =>
    if planeAllocBytes (buffer.layout.lines p) (buffer.layout.pitch p) = 0 then []
    else
      match alloc p with
      | none => []
      | some a => (if a ≠ 0 then [.alloc (block p)] else []) ++
          allocPlanesLog block alloc ps { buffer with data := Function.update buffer.data p a }

def allocPlaneBufferLog (block : Plane → ZimgBlock) (buffer : PlaneBuffer)
    (alloc : Plane → Option ℕ) : ZimgHeapLog :=
  if planeBufferBytes buffer = sizeMax then [] else allocPlanesLog block alloc [.y, .u, .v] buffer

def freePlaneBufferLog (block : Plane → ZimgBlock) (buffer : PlaneBuffer) : ZimgHeapLog :=
  [Plane.y, .u, .v].flatMap fun q => if buffer.data q ≠ 0 then [.free (block q)] else []

/-! ### The pool's storage -/

/-- How the calls of `up_pool_gate_init` turn out. -/
structure GateOutcome where
  lock : Bool
  cv : Bool
  doneLock : Bool
  attr : Bool
  setclock : Bool
  doneCv : Bool

/-- `up__pool_gate_init_done` -/
def gateInitDone (o : GateOutcome) : Bool := o.doneLock && o.attr && o.setclock && o.doneCv

def gateInitDoneLog (o : GateOutcome) : ZimgHeapLog :=
  if o.doneLock = false then []
  else
    [.alloc (.gate .doneLock)] ++ (if o.attr then [.alloc (.gate .attr)] else []) ++
      (if o.attr ∧ o.setclock ∧ o.doneCv then [.alloc (.gate .doneCv)] else []) ++
      (if o.attr then [.free (.gate .attr)] else []) ++
      if gateInitDone o = false then [.free (.gate .doneLock)] else []

/-- `up_pool_gate_init` -/
def gateInit (o : GateOutcome) : Bool := o.lock && o.cv && gateInitDone o

def gateInitLog (o : GateOutcome) : ZimgHeapLog :=
  if o.lock = false then []
  else if o.cv = false then [.alloc (.gate .lock), .free (.gate .lock)]
  else
    [.alloc (.gate .lock), .alloc (.gate .cv)] ++ gateInitDoneLog o ++
      if gateInitDone o = false then [.free (.gate .cv), .free (.gate .lock)] else []

/-- `up_pool_gate_destroy` -/
def gateDestroyLog (ready : Bool) : ZimgHeapLog :=
  if ready then [.free (.gate .doneCv), .free (.gate .doneLock), .free (.gate .cv),
    .free (.gate .lock)]
  else []

/-- What `up__pool_setup` allocates after its prepare hook. -/
def poolSetupLog (p : WorkerPool) (o : StartOutcome) (gate : GateOutcome) : ZimgHeapLog :=
  if o.allocWorkers = false then []
  else .alloc .workers ::
    if p.nPref = 1 then []
    else if o.allocThreads = false then []
    else .alloc .threads :: gateInitLog gate

/-- The frees of `up_worker_pool_destroy` after the slots. -/
def poolFreeLog (p : WorkerPool) : ZimgHeapLog :=
  (if p.workers then [.free .workers] else []) ++
    (if p.threads.isSome then [.free .threads] else []) ++ gateDestroyLog p.gateReady

/-! ### Slots -/

/-- `build_worker_graph_and_tmp` -/
def buildWorkerLog (i : ℕ) (graph tmp : Bool) (tmpSize : ℕ) : ZimgHeapLog :=
  if graph = false then []
  else .alloc (.graph i) :: if tmp ∧ 0 < tmpSize then [.alloc (.tmp i)] else []

/-- The tile buffer that `alloc_tile_dst` fills. -/
def tileBuffer (w : StripeWorker) (p : ZimgPriv) (c : CellBounds) : PlaneBuffer :=
  ⟨w.tileDst.data, initPlaneLayout (c.cols.dstEnd - c.cols.dstStart)
    (c.rows.dstEnd - c.rows.dstStart) p.subW p.subH⟩

/-- `init_stripe_worker` -/
def initStripeWorkerLog (i : ℕ) (w : StripeWorker) (p : ZimgPriv) (c : CellBounds)
    (alloc : Plane → Option ℕ) (graph tmp : Bool) (tmpSize : ℕ) : ZimgHeapLog :=
  if p.plan.colTiled then
    allocPlaneBufferLog (.tile i) (tileBuffer w p c) alloc ++
      if (allocPlaneBuffer (tileBuffer w p c) alloc).1 = false then []
      else buildWorkerLog i graph tmp tmpSize
  else buildWorkerLog i graph tmp tmpSize

/-- `zimg_pool_release` of a slot whose tmp pointer is `tmp`. -/
def zimgPoolReleaseLog (i : ℕ) (w : StripeWorker) (tmp : Bool) : ZimgHeapLog :=
  (if w.graph.isSome then [.free (.graph i)] else []) ++ (if tmp then [.free (.tmp i)] else []) ++
    if w.colTiled then freePlaneBufferLog (.tile i) w.tileDst else []

/-- `zimg_pool_construct`: the tmp pointer of the slot after it, and what it allocates. -/
def zimgPoolConstructLog (p : ZimgPriv) (o : ZimgAllocs) (tmpSize : ℕ) (tmp : Bool) (i : ℕ) :
    Bool × ZimgHeapLog :=
  match zimgCellBounds p.plan p.geom i with
  | none => (tmp, [])
  | some c =>
    let r := initStripeWorker (p.workers i) p c (o.tile i) (o.graph i) (o.tmp i)
    let tmp := if r.1 ∧ 0 < tmpSize then true else tmp
    let log := initStripeWorkerLog i (p.workers i) p c (o.tile i) (o.graph i) (o.tmp i) tmpSize
    if r.1 = false then (false, log ++ zimgPoolReleaseLog i r.2 tmp) else (tmp, log)

/-- `alloc_scratch_buffers` -/
def allocScratchBuffersLog (p : ZimgPriv) (o : ZimgAllocs) : ZimgHeapLog :=
  let s := if p.plan.srcZerocopy = false then allocPlaneBuffer p.src o.src else (true, p.src)
  (if p.plan.srcZerocopy = false then allocPlaneBufferLog (.scratch .src) p.src o.src else []) ++
    if s.1 = false then []
    else if p.plan.dstZerocopy = false ∧ p.plan.colTiled = false then
      allocPlaneBufferLog (.scratch .dst) p.dst o.dst
    else []

/-! ### The backend -/

/-- The backend, the tmp pointers of its slots and the log so far. -/
structure ZimgHeap where
  priv : ZimgPriv
  tmp : ℕ → Bool
  log : ZimgHeapLog

/-- The blocks a pool has a pointer to, or an initialised object of. -/
def PoolHeld (q : WorkerPool) : ZimgBlock → Prop
  | .workers => q.workers = true
  | .threads => q.threads.isSome = true
  | .gate x => x ≠ .attr ∧ q.gateReady = true
  | _ => False

/-- The blocks the backend has a pointer to when its pool is `q`. -/
def ZimgHeap.HoldsWith (s : ZimgHeap) (q : WorkerPool) : ZimgBlock → Prop
  | .priv => True
  | .scratch .src p => s.priv.src.data p ≠ 0
  | .scratch .dst p => s.priv.dst.data p ≠ 0
  | .tile i p => (s.priv.workers i).tileDst.data p ≠ 0
  | .graph i => (s.priv.workers i).graph.isSome = true
  | .tmp i => s.tmp i = true
  | b => PoolHeld q b

def ZimgHeap.Holds (s : ZimgHeap) : ZimgBlock → Prop := s.HoldsWith s.priv.pool

/-- A frame, with what the logs need to know of its calls: those of the gate, and the tmp
sizes that the graphs ask for. -/
structure ZimgHeapCall where
  src : Option Picture
  dst : Option Picture
  outcome : ZimgOutcome
  gate : GateOutcome
  tmpSize : ℕ → ℕ

/-- The call's outcome, where the gate comes up when its calls do. -/
def ZimgHeapCall.run (c : ZimgHeapCall) : ZimgOutcome :=
  { c.outcome with start := { c.outcome.start with gateInit := gateInit c.gate } }

/-- What a release frees. -/
def zimgReleaseHook (s : ZimgHeap) : PoolEvent → ZimgHeap
  | .release i =>
    ⟨zimgPoolRelease s.priv i, Function.update s.tmp i false,
      s.log ++ zimgPoolReleaseLog i (s.priv.workers i) (s.tmp i)⟩
  | _ => s

/-- What a pool event allocates and frees. -/
def zimgHeapHook (c : ZimgHeapCall) (s : ZimgHeap) (e : PoolEvent) : ZimgHeap where
  priv := zimgPoolHook c.outcome.allocs s.priv e
  tmp := match e with
    | .construct i _ => Function.update s.tmp i
        (zimgPoolConstructLog s.priv c.outcome.allocs (c.tmpSize i) (s.tmp i) i).1
    | .release i => Function.update s.tmp i false
    | _ => s.tmp
  log := s.log ++ match e with
    | .prepare ok => allocScratchBuffersLog s.priv c.outcome.allocs ++
        if ok then poolSetupLog s.priv.pool c.outcome.start c.gate else []
    | .construct i _ =>
        (zimgPoolConstructLog s.priv c.outcome.allocs (c.tmpSize i) (s.tmp i) i).2
    | .release i => zimgPoolReleaseLog i (s.priv.workers i) (s.tmp i)
    | _ => []

/-- The backend that `zimg_ensure_lazy_init` starts, if it starts one. -/
def zimgStarting (ctx : ScalerCtx) (p : ZimgPriv) (src dst : Option Picture) : ZimgPriv :=
  match zimgFrameViewsInit ctx src dst with
  | none => p
  | some (srcView, dstView) =>
    let p := zimgPrepareFirstFrameIo p ctx srcView dstView
    { p with pool := workerPoolConfig p.plan.nThreads true }

/-- `zimg_open` -/
def zimgHeapOpen (ctx : ScalerCtx) (workerBudget : ℤ) (api alloc : Bool) : Option ZimgHeap :=
  (zimgOpen ctx workerBudget api alloc).map fun p => ⟨p, fun _ => false, [.alloc .priv]⟩

/-- `zimg_process` -/
def zimgHeapProcess (ctx : ScalerCtx) (s : ZimgHeap) (c : ZimgHeapCall) : ZimgHeap :=
  let t := (zimgStartLog ctx s.priv c.src c.dst c.run).foldl (zimgHeapHook c)
    { s with priv := zimgStarting ctx s.priv c.src c.dst }
  { t with priv := (zimgProcess ctx s.priv c.src c.dst c.run).priv }

def zimgHeapAfter (ctx : ScalerCtx) (s : ZimgHeap) (calls : List ZimgHeapCall) : ZimgHeap :=
  calls.foldl (zimgHeapProcess ctx) s

/-- `zimg_close`: whether every thread could be joined, and the log at its end. -/
def zimgHeapClose (s : ZimgHeap) (o : StopOutcome) : Bool × ZimgHeapLog :=
  let d := workerPoolDestroy s.priv.pool o
  if d.ok = false then (false, s.log)
  else
    let t := d.log.foldl zimgReleaseHook s
    (true, t.log ++ poolFreeLog s.priv.pool ++ freePlaneBufferLog (.scratch .src) t.priv.src ++
      freePlaneBufferLog (.scratch .dst) t.priv.dst ++ [.free .priv])

/-! ### Buffers and slots -/

section Blocks

variable {block : Plane → ZimgBlock} {P : ZimgBlock → Prop}

/-- The blocks of `P` and the planes of a buffer that are allocated. -/
def BufferHeld (block : Plane → ZimgBlock) (buffer : PlaneBuffer) (P : ZimgBlock → Prop)
    (b : ZimgBlock) : Prop :=
  (∃ q, b = block q ∧ buffer.data q ≠ 0) ∨ P b

theorem bufferHeld_null {buffer : PlaneBuffer} (h : ∀ q, buffer.data q = 0) (b : ZimgBlock) :
    BufferHeld block buffer P b ↔ P b := by
  constructor
  · intro hb
    rcases hb with ⟨q, -, hq⟩ | hb
    · exact absurd (h q) hq
    · exact hb
  · exact Or.inr

theorem allocPlane_transfers (hinj : Function.Injective block) (hP : ∀ q, ¬ P (block q))
    {buffer : PlaneBuffer} {p : Plane} (hnull : buffer.data p = 0) (a : ℕ) :
    Transfers (BufferHeld block buffer P)
      (BufferHeld block { buffer with data := Function.update buffer.data p a } P)
      (if a ≠ 0 then [.alloc (block p)] else []) := by
  have hnew : a ≠ 0 → ¬ BufferHeld block buffer P (block p) := by
    intro _ hheld
    rcases hheld with ⟨q, hq, hdata⟩ | hheld
    · rw [← hinj hq] at hdata
      exact hdata hnull
    · exact hP p hheld
  refine (Transfers.allocIf hnew).congr (fun _ => Iff.rfl) fun b => ?_
  constructor
  · intro hb
    rcases hb with ⟨ha, rfl⟩ | ⟨q, rfl, hq⟩ | hb
    · exact .inl ⟨p, rfl, by simpa using ha⟩
    · refine .inl ⟨q, rfl, ?_⟩
      have hne : q ≠ p := fun h => hq (h ▸ hnull)
      simpa [Function.update_of_ne hne] using hq
    · exact .inr hb
  · intro hb
    rcases hb with ⟨q, rfl, hq⟩ | hb
    · by_cases hqp : q = p
      · subst hqp
        exact .inl ⟨by simpa using hq, rfl⟩
      · exact .inr (.inl ⟨q, rfl, by simpa [Function.update_of_ne hqp] using hq⟩)
    · exact .inr (.inr hb)

theorem allocPlanes_transfers (hinj : Function.Injective block) (hP : ∀ q, ¬ P (block q))
    (alloc : Plane → Option ℕ) {ps : List Plane} (hnodup : ps.Nodup) {buffer : PlaneBuffer}
    (hnull : ∀ q ∈ ps, buffer.data q = 0) :
    Transfers (BufferHeld block buffer P) (BufferHeld block (allocPlanes alloc ps buffer).2 P)
      (allocPlanesLog block alloc ps buffer) := by
  induction ps generalizing buffer with
  | nil => exact .nil fun _ => Iff.rfl
  | cons p ps ih =>
    obtain ⟨hp, hnodup⟩ := List.nodup_cons.mp hnodup
    have hnullp : buffer.data p = 0 := hnull p List.mem_cons_self
    unfold allocPlanes allocPlanesLog
    split
    · exact .nil fun _ => Iff.rfl
    cases alloc p with
    | none =>
      have hsame : Function.update buffer.data p 0 = buffer.data := by
        rw [← hnullp, Function.update_eq_self]
      simp only [hsame]
      exact .nil fun _ => Iff.rfl
    | some a =>
      refine (allocPlane_transfers hinj hP hnullp a).append (ih hnodup fun q hq => ?_)
      have hne : q ≠ p := fun h => hp (h ▸ hq)
      simpa [Function.update_of_ne hne] using hnull q (List.mem_cons_of_mem p hq)

theorem allocPlaneBuffer_transfers (hinj : Function.Injective block) (hP : ∀ q, ¬ P (block q))
    (alloc : Plane → Option ℕ) {buffer : PlaneBuffer} (hnull : ∀ q, buffer.data q = 0) :
    Transfers P (BufferHeld block (allocPlaneBuffer buffer alloc).2 P)
      (allocPlaneBufferLog block buffer alloc) := by
  have hnodup : [Plane.y, .u, .v].Nodup := by decide
  unfold allocPlaneBuffer allocPlaneBufferLog
  split
  · exact .nil fun b => (bufferHeld_null hnull b).symm
  · exact (allocPlanes_transfers hinj hP alloc hnodup fun q _ => hnull q).congr
      (fun b => (bufferHeld_null hnull b).symm) fun _ => Iff.rfl

theorem freePlaneBuffer_transfers (hinj : Function.Injective block) (hP : ∀ q, ¬ P (block q))
    (buffer : PlaneBuffer) :
    Transfers (BufferHeld block buffer P) P (freePlaneBufferLog block buffer) := by
  have hnodup : [Plane.y, .u, .v].Nodup := by decide
  have hmem (q : Plane) : q ∈ [Plane.y, .u, .v] := by
    cases q <;> decide
  refine (Transfers.freeAll hinj (fun q => buffer.data q ≠ 0) hnodup fun q _ hq =>
    .inl ⟨q, rfl, hq⟩).congr (fun _ => Iff.rfl) fun b => ?_
  constructor
  · intro hb
    obtain ⟨hfreed, ⟨q, hq, hdata⟩ | hb⟩ := hb
    · exact absurd hq (hfreed q (hmem q) hdata)
    · exact hb
  · intro hb
    refine ⟨fun q _ _ hq => hP q ?_, .inr hb⟩
    rw [← hq]
    exact hb

/-- The blocks of slot `i`. -/
def ZimgBlock.OfSlot (i : ℕ) : ZimgBlock → Prop
  | .graph j => j = i
  | .tmp j => j = i
  | .tile j _ => j = i
  | _ => False

/-- The blocks that slot `i` has a pointer to. -/
def SlotHeld (i : ℕ) (w : StripeWorker) (tmp : Bool) : ZimgBlock → Prop
  | .graph j => j = i ∧ w.graph.isSome = true
  | .tmp j => j = i ∧ tmp = true
  | .tile j q => j = i ∧ w.tileDst.data q ≠ 0
  | _ => False

/-- A slot without graph, tmp buffer and tile. -/
structure SlotVacant (w : StripeWorker) (tmp : Bool) : Prop where
  graph : w.graph = none
  tmp : tmp = false
  tile : ∀ q, w.tileDst.data q = 0

theorem SlotVacant.not_held {w : StripeWorker} {tmp : Bool} (h : SlotVacant w tmp) (i : ℕ)
    (b : ZimgBlock) : ¬ SlotHeld i w tmp b := by
  cases b <;> simp [SlotHeld, h.graph, h.tmp, h.tile]

theorem tile_injective (i : ℕ) : Function.Injective (ZimgBlock.tile i) := by
  intro q q' h
  cases h
  rfl

theorem buildWorker_transfers {i : ℕ} (hgraph : ¬ P (.graph i)) (htmp : ¬ P (.tmp i))
    {w : StripeWorker} (hnone : w.graph = none) (p : ZimgPriv) (c : CellBounds) (graph tmp : Bool)
    (tmpSize : ℕ) :
    Transfers P (fun b =>
        (b = .graph i ∧ (buildWorkerGraphAndTmp w p c graph tmp).2.graph.isSome = true) ∨
        (b = .tmp i ∧ (buildWorkerGraphAndTmp w p c graph tmp).1 = true ∧ 0 < tmpSize) ∨ P b)
      (buildWorkerLog i graph tmp tmpSize) := by
  unfold buildWorkerGraphAndTmp buildWorkerLog
  cases graph with
  | false => exact .nil fun b => by simp [hnone]
  | true =>
    have hnew : tmp = true ∧ 0 < tmpSize → ¬ (ZimgBlock.tmp i = .graph i ∨ P (.tmp i)) := by
      intro _ h
      rcases h with h | h
      · exact absurd h (by simp)
      · exact htmp h
    refine ((Transfers.alloc hgraph).append (.allocIf hnew)).congr (fun _ => Iff.rfl) fun b => ?_
    simp only [Bool.true_eq_false, if_false, Option.isSome_some, and_true]
    tauto

theorem buildWorkerGraphAndTmp_tile (w : StripeWorker) (p : ZimgPriv) (c : CellBounds)
    (graph tmp : Bool) : (buildWorkerGraphAndTmp w p c graph tmp).2.tileDst = w.tileDst := by
  unfold buildWorkerGraphAndTmp
  split <;> rfl

/-- `alloc_tile_dst` is an allocation of the tile buffer. -/
theorem allocTileDst_buffer (w : StripeWorker) (p : ZimgPriv) (dstStripeH : ℤ)
    (alloc : Plane → Option ℕ) {tile : PlaneBuffer}
    (htile : tile = ⟨w.tileDst.data, initPlaneLayout w.cell.dstW dstStripeH p.subW p.subH⟩) :
    (allocTileDst w p dstStripeH alloc).1 = (allocPlaneBuffer tile alloc).1 ∧
      (allocTileDst w p dstStripeH alloc).2.tileDst = (allocPlaneBuffer tile alloc).2 ∧
      (allocTileDst w p dstStripeH alloc).2.graph = w.graph := by
  subst htile
  unfold allocTileDst
  dsimp only
  split
  · rename_i hfailed
    exact ⟨hfailed.symm, rfl, rfl⟩
  · rename_i hok
    exact ⟨by simpa using hok, rfl, rfl⟩

theorem initStripeWorker_transfers {i : ℕ} (hP : ∀ b, b.OfSlot i → ¬ P b) {w : StripeWorker}
    {old : Bool} (hvacant : SlotVacant w old) (p : ZimgPriv) (c : CellBounds)
    (alloc : Plane → Option ℕ) (graph tmp : Bool) (tmpSize : ℕ) :
    Transfers P (fun b => SlotHeld i (initStripeWorker w p c alloc graph tmp).2
        (decide ((initStripeWorker w p c alloc graph tmp).1 = true ∧ 0 < tmpSize)) b ∨ P b)
      (initStripeWorkerLog i w p c alloc graph tmp tmpSize) := by
  have hgraph : ¬ P (.graph i) := hP _ rfl
  have htmp : ¬ P (.tmp i) := hP _ rfl
  have htile : ∀ q, ¬ P (.tile i q) := fun q => hP _ rfl
  unfold initStripeWorker initStripeWorkerLog
  dsimp only
  split
  · obtain ⟨hok, hbuffer, hsame⟩ := allocTileDst_buffer
      { w with
        cell := workerCellGeom c p.subW p.subH
        colTiled := p.plan.colTiled
        copyIn := !p.plan.srcZerocopy
        copyOut := !p.plan.dstZerocopy
        src := planeBufferView p.src } p (c.rows.dstEnd - c.rows.dstStart) alloc
      (show tileBuffer w p c = _ from rfl)
    have hnull : ∀ q, (tileBuffer w p c).data q = 0 := hvacant.tile
    have halloc := allocPlaneBuffer_transfers (tile_injective i) htile alloc hnull
    generalize allocTileDst _ p (c.rows.dstEnd - c.rows.dstStart) alloc = t at hok hbuffer hsame ⊢
    rw [← hbuffer] at halloc
    rw [← hok]
    have hnone : t.2.graph = none := hsame.trans hvacant.graph
    split
    · refine (halloc.append (.nil fun _ => Iff.rfl)).congr (fun _ => Iff.rfl) fun b => ?_
      cases b <;> simp [BufferHeld, SlotHeld, hnone]
    · have hbuild := buildWorker_transfers (P := BufferHeld (.tile i) t.2.tileDst P) (i := i)
        (by simp [BufferHeld, hgraph]) (by simp [BufferHeld, htmp]) hnone p c graph tmp tmpSize
      refine (halloc.append hbuild).congr (fun _ => Iff.rfl) fun b => ?_
      cases b <;> simp [BufferHeld, SlotHeld, buildWorkerGraphAndTmp_tile]
  · have hbuild := buildWorker_transfers (i := i) hgraph htmp
      (w := { w with
        cell := workerCellGeom c p.subW p.subH
        colTiled := p.plan.colTiled
        copyIn := !p.plan.srcZerocopy
        copyOut := !p.plan.dstZerocopy
        src := planeBufferView p.src
        dst := planeBufferView p.dst }) hvacant.graph p c graph tmp tmpSize
    refine hbuild.congr (fun _ => Iff.rfl) fun b => ?_
    cases b <;> simp [SlotHeld, buildWorkerGraphAndTmp_tile, hvacant.tile]

theorem zimgPoolRelease_transfers {i : ℕ} (hP : ∀ b, b.OfSlot i → ¬ P b) {w : StripeWorker}
    {tmp : Bool} (htiles : w.colTiled = false → ∀ q, w.tileDst.data q = 0) :
    Transfers (fun b => SlotHeld i w tmp b ∨ P b) P (zimgPoolReleaseLog i w tmp) := by
  have hgraph : ¬ P (.graph i) := hP _ rfl
  have htmp : ¬ P (.tmp i) := hP _ rfl
  have htile : ∀ q, ¬ P (.tile i q) := fun q => hP _ rfl
  have hframe : Transfers (BufferHeld (.tile i) w.tileDst P) P
      (if w.colTiled then freePlaneBufferLog (.tile i) w.tileDst else []) := by
    split
    · exact freePlaneBuffer_transfers (tile_injective i) htile w.tileDst
    · rename_i hrows
      exact .nil (bufferHeld_null (htiles (by simpa using hrows)))
  have hfirst : Transfers (fun b => SlotHeld i w tmp b ∨ P b)
      (fun b => (b = .tmp i ∧ tmp = true) ∨ BufferHeld (.tile i) w.tileDst P b)
      (if w.graph.isSome then [.free (.graph i)] else []) := by
    refine (Transfers.freeIf fun hsome => .inl ⟨rfl, hsome⟩).congr (fun _ => Iff.rfl) fun b => ?_
    cases b with
    | graph j => simp [BufferHeld, SlotHeld]; grind
    | tmp j => simp [BufferHeld, SlotHeld]
    | tile j q => simp [BufferHeld, SlotHeld]
    | _ => simp [BufferHeld, SlotHeld]
  have hsecond : Transfers (fun b => (b = .tmp i ∧ tmp = true) ∨ BufferHeld (.tile i) w.tileDst P b)
      (BufferHeld (.tile i) w.tileDst P) (if tmp then [.free (.tmp i)] else []) := by
    refine (Transfers.freeIf fun hset => .inl ⟨rfl, hset⟩).congr (fun _ => Iff.rfl) fun b => ?_
    cases b with
    | tmp j => simp [BufferHeld]; grind
    | _ => simp [BufferHeld]
  exact (hfirst.append hsecond).append hframe

/-- Only a tiled slot has a tile. -/
theorem initStripeWorker_tiles {w : StripeWorker} {old : Bool} (hvacant : SlotVacant w old)
    (p : ZimgPriv) (c : CellBounds) (alloc : Plane → Option ℕ) (graph tmp : Bool)
    (hrows : (initStripeWorker w p c alloc graph tmp).2.colTiled = false) (q : Plane) :
    (initStripeWorker w p c alloc graph tmp).2.tileDst.data q = 0 := by
  unfold initStripeWorker buildWorkerGraphAndTmp allocTileDst at hrows ⊢
  cases htiled : p.plan.colTiled
  · simp only [htiled, Bool.false_eq_true, if_false] at hrows ⊢
    cases graph <;> exact hvacant.tile q
  · -- every way through sets `col_tiled`
    simp only [htiled, if_true] at hrows
    repeat' split at hrows
    all_goals simp at hrows

theorem zimgPoolRelease_vacant (p : ZimgPriv) (i : ℕ)
    (htiles : (p.workers i).colTiled = false → ∀ q, (p.workers i).tileDst.data q = 0) :
    SlotVacant ((zimgPoolRelease p i).workers i) false := by
  refine ⟨?_, rfl, fun q => ?_⟩
  · simp only [zimgPoolRelease, Function.update_self]
    split <;> rfl
  · simp only [zimgPoolRelease, Function.update_self]
    split
    · rfl
    · rename_i hrows
      exact htiles (by simpa using hrows) q

/-- What `zimg_pool_construct` does to a vacant slot: a cell that it rejects is
vacant again. -/
theorem zimgPoolConstruct_transfers {i : ℕ} (hP : ∀ b, b.OfSlot i → ¬ P b) (p : ZimgPriv)
    (o : ZimgAllocs) {tmp : Bool} (hvacant : SlotVacant (p.workers i) tmp) (tmpSize : ℕ) :
    let w := (zimgPoolConstruct p o i).2.workers i
    let l := zimgPoolConstructLog p o tmpSize tmp i
    Transfers P (fun b => SlotHeld i w l.1 b ∨ P b) l.2 ∧
      ((zimgPoolConstruct p o i).1 = false → SlotVacant w l.1) ∧
      (w.colTiled = false → ∀ q, w.tileDst.data q = 0) := by
  unfold zimgPoolConstruct zimgPoolConstructLog
  cases zimgCellBounds p.plan p.geom i with
  | none =>
    refine ⟨.nil fun b => ?_, fun _ => hvacant, fun _ => hvacant.tile⟩
    simp [hvacant.not_held i]
  | some c =>
    have hinit := initStripeWorker_transfers hP hvacant p c (o.tile i) (o.graph i) (o.tmp i) tmpSize
    have htiles := initStripeWorker_tiles hvacant p c (o.tile i) (o.graph i) (o.tmp i)
    dsimp only
    generalize initStripeWorker (p.workers i) p c (o.tile i) (o.graph i) (o.tmp i) = r
      at hinit htiles ⊢
    have htmp : (if r.1 = true ∧ 0 < tmpSize then true else tmp) =
        decide (r.1 = true ∧ 0 < tmpSize) := by
      rw [hvacant.tmp]
      split <;> simp_all
    rw [htmp]
    cases hok : r.1 with
    | false =>
      have hvacant' : SlotVacant ((zimgPoolRelease { p with
          workers := Function.update p.workers i r.2 } i).workers i) false := by
        refine zimgPoolRelease_vacant _ i ?_
        simpa using htiles
      simp only [if_true]
      refine ⟨?_, fun _ => hvacant', fun _ => hvacant'.tile⟩
      have hrelease : Transfers (fun b => SlotHeld i r.2 false b ∨ P b) P _ :=
        zimgPoolRelease_transfers hP htiles
      simp only [hok, Bool.false_eq_true, false_and, decide_false] at hinit
      refine (hinit.append hrelease).congr (fun _ => Iff.rfl) fun b => ?_
      simp [hvacant'.not_held i]
    | true =>
      simp only [hok, true_and] at hinit
      simp only [Bool.true_eq_false, if_false, Function.update_self, true_and]
      exact ⟨hinit, fun h => absurd h (by simp), htiles⟩

end Blocks

/-! ### The pool's storage -/

section Storage

variable {P : ZimgBlock → Prop} {p : WorkerPool}

/-- Which of its storage a pool has. -/
def WorkerPool.storage (p : WorkerPool) : Bool × Bool × Bool :=
  (p.workers, p.threads.isSome, p.gateReady)

theorem poolHeld_congr {q q' : WorkerPool} (h : q'.storage = q.storage) (b : ZimgBlock) :
    PoolHeld q' b ↔ PoolHeld q b := by
  simp only [WorkerPool.storage, Prod.mk.injEq] at h
  obtain ⟨hworkers, hthreads, hgate⟩ := h
  cases b <;> simp only [PoolHeld, hworkers, hthreads, hgate]

theorem setStarted_storage (p : WorkerPool) (i : ℕ) (v : Bool) :
    (p.setStarted i v).storage = p.storage := by
  simp [WorkerPool.storage, WorkerPool.setStarted]

/-- A stop gives no storage back. -/
theorem workerPoolStop_storage (p : WorkerPool) (o : StopOutcome) :
    (workerPoolStop p o).pool.storage = p.storage := by
  have hone (c : PoolCall) (i : ℕ) : (joinOne o c i).pool.storage = c.pool.storage := by
    unfold joinOne
    split
    · rfl
    split
    · rfl
    · exact setStarted_storage c.pool i false
  have hloop (js : List ℕ) (c : PoolCall) :
      (js.foldl (joinOne o) c).pool.storage = c.pool.storage := by
    induction js generalizing c with
    | nil => rfl
    | cons j js ih => exact (ih _).trans (hone c j)
  unfold workerPoolStop
  split
  · rfl
  · refine (hloop _ _).trans ?_
    split <;> rfl

theorem workerPoolPoison_storage (p : WorkerPool) (o : StopOutcome) :
    (workerPoolPoison p o).pool.storage = p.storage :=
  workerPoolStop_storage { p with broken := true } o

theorem workerPoolDispatch_storage (p : WorkerPool) (gateOk : Bool) (o : StopOutcome) :
    (workerPoolDispatch p gateOk o).pool.storage = p.storage := by
  unfold workerPoolDispatch
  split
  · rfl
  split
  · rfl
  · exact workerPoolPoison_storage p o

theorem poolConstructFrom_storage (o : StartOutcome) (k i : ℕ) (p : WorkerPool) :
    (poolConstructFrom o k i p).2.1.storage = p.storage := by
  have hone (i : ℕ) (p : WorkerPool) : (poolConstructOne p i o).pool.storage = p.storage := by
    unfold poolConstructOne
    split
    · rfl
    split
    · rfl
    split
    · exact setStarted_storage p i true
    · rfl
  induction k generalizing i p with
  | zero => rfl
  | succ k ih =>
    unfold poolConstructFrom
    dsimp only
    split
    · exact hone i p
    · exact (ih _ _).trans (hone i p)

/-- Only its setup allocates what a start leaves. -/
theorem workerPoolStart_storage (p : WorkerPool) (o : StartOutcome) :
    (workerPoolStart p o).pool.storage = (poolSetup p o).pool.storage := by
  have hcells (p : WorkerPool) : (poolConstructAll p o).2.1.storage = p.storage :=
    poolConstructFrom_storage o _ 0 p
  have hretire (p : WorkerPool) (built : ℕ) :
      (poolRetireFailedStart p built o.stop).1.storage = p.storage := by
    have hstop := workerPoolStop_storage { p with nWorkers := built } o.stop
    unfold poolRetireFailedStart
    dsimp only
    split <;> exact hstop
  unfold workerPoolStart
  dsimp only
  split
  · rfl
  split
  · exact (hretire _ _).trans (hcells _)
  · exact hcells _

/-- The four objects of a gate that came up. -/
def gateObjects : Finset ZimgBlock :=
  {.gate .lock, .gate .cv, .gate .doneLock, .gate .doneCv}

theorem mem_gateObjects {b : ZimgBlock} : b ∈ gateObjects ↔ ∃ x, x ≠ .attr ∧ b = .gate x := by
  constructor
  · intro h
    simp only [gateObjects, Finset.mem_insert, Finset.mem_singleton] at h
    rcases h with rfl | rfl | rfl | rfl <;> exact ⟨_, by decide, rfl⟩
  · rintro ⟨x, hx, rfl⟩
    cases x
    · decide
    · decide
    · decide
    · decide
    · exact absurd rfl hx

/-- Whichever of its calls fails, a gate comes up whole or not at all. -/
theorem gateInit_replays (o : GateOutcome) : replay heapStep ∅ (gateInitLog o) =
    some (if gateInit o then gateObjects else ∅) := by
  obtain ⟨lock, cv, doneLock, attr, setclock, doneCv⟩ := o
  revert lock cv doneLock attr setclock doneCv
  decide

def ZimgBlock.isGate : ZimgBlock → Bool
  | .gate _ => true
  | _ => false

theorem gateInit_blocks (o : GateOutcome) : ∀ e ∈ gateInitLog o, e.block.isGate = true := by
  obtain ⟨lock, cv, doneLock, attr, setclock, doneCv⟩ := o
  revert lock cv doneLock attr setclock doneCv
  decide

theorem gateInit_transfers (hP : ∀ b, b.isGate = true → ¬ P b) (o : GateOutcome) :
    Transfers P (fun b => (gateInit o = true ∧ b ∈ gateObjects) ∨ P b) (gateInitLog o) := by
  have hnew : ∀ e ∈ gateInitLog o, e.block ∉ (∅ : Finset ZimgBlock) → ¬ P e.block :=
    fun e he _ => hP e.block (gateInit_blocks o e he)
  refine (Transfers.frame (gateInit_replays o) (by simp) hnew).congr (fun _ => Iff.rfl) fun b => ?_
  cases gateInit o <;> simp

/-- The blocks of the pool. -/
def ZimgBlock.OfPool : ZimgBlock → Prop
  | .workers => True
  | .threads => True
  | .gate _ => True
  | _ => False

/-- What `up__pool_setup` allocates for a pool that has nothing yet. -/
theorem poolSetup_transfers {o : StartOutcome} {gate : GateOutcome} {ok : Bool}
    (hP : ∀ b, b.OfPool → ¬ P b) (hnone : p.storage = (false, false, false))
    (hgate : o.gateInit = gateInit gate) (hlog : (poolSetup p o).log = [.prepare ok]) :
    Transfers P (fun b => PoolHeld (poolSetup p o).pool b ∨ P b)
      (if ok then poolSetupLog p o gate else []) := by
  simp only [WorkerPool.storage, Prod.mk.injEq] at hnone
  obtain ⟨hworkers, hthreads, hready⟩ := hnone
  have hnull : ∀ b, P b ↔ PoolHeld p b ∨ P b := by
    intro b
    cases b <;> simp [PoolHeld, hworkers, hthreads, hready]
  have hfirst : Transfers P (fun b => b = .workers ∨ P b) [.alloc .workers] :=
    .alloc (hP _ trivial)
  have hsecond : Transfers (fun b => b = .workers ∨ P b)
      (fun b => b = .threads ∨ b = .workers ∨ P b) [.alloc .threads] :=
    .alloc (by simp [hP .threads trivial])
  have hthird : Transfers (fun b => b = .threads ∨ b = .workers ∨ P b) _ (gateInitLog gate) :=
    gateInit_transfers (fun b hb => by
      cases b with
      | gate x => simp [hP (.gate x) trivial]
      | _ => simp [ZimgBlock.isGate] at hb) gate
  unfold poolSetup poolAlloc at hlog ⊢
  unfold poolSetupLog
  by_cases hpref : p.nPref < 1 ∨ p.nPref > threadsMax
  · simp [hpref] at hlog
  by_cases hprepare : o.prepare = false
  · simp only [if_neg hpref, if_pos hprepare, List.cons.injEq, PoolEvent.prepare.injEq] at hlog ⊢
    obtain ⟨rfl, -⟩ := hlog
    exact .nil hnull
  have hok : ok = true := by
    simp only [if_neg hpref, if_neg hprepare] at hlog
    repeat' split at hlog
    all_goals simpa using hlog.symm
  simp only [if_neg hpref, if_neg hprepare, hok, if_true]
  by_cases hw : o.allocWorkers = false
  · simp only [hw, if_true]
    exact .nil hnull
  by_cases hone : p.nPref = 1
  · simp only [if_neg hw, if_pos hone, decide_eq_true hone, Bool.true_eq_false, if_false]
    refine hfirst.congr (fun _ => Iff.rfl) fun b => ?_
    cases b <;> simp [PoolHeld, hthreads, hready]
  by_cases ht : o.allocThreads = false
  · simp only [if_neg hw, if_neg hone, if_pos ht, if_true]
    refine hfirst.congr (fun _ => Iff.rfl) fun b => ?_
    cases b <;> simp [PoolHeld, hthreads, hready]
  simp only [if_neg hw, if_neg hone, if_neg ht, decide_eq_false hone, if_true, hgate]
  refine (hfirst.append (hsecond.append hthird)).congr (fun _ => Iff.rfl) fun b => ?_
  cases hg : gateInit gate
  · simp only [if_true]
    cases b <;> simp [PoolHeld, hready, hP .workers trivial, hP .threads trivial]
  · simp only [Bool.true_eq_false, if_false]
    cases b <;> simp [PoolHeld, mem_gateObjects]

theorem poolFree_transfers (hP : ∀ b, b.OfPool → ¬ P b) (q : WorkerPool) :
    Transfers (fun b => PoolHeld q b ∨ P b) P (poolFreeLog q) := by
  have hworkers := hP .workers trivial
  have hthreads := hP .threads trivial
  have hgate := fun x => hP (.gate x) trivial
  have hfirst : Transfers (fun b => PoolHeld q b ∨ P b)
      (fun b => (b ≠ .workers ∧ PoolHeld q b) ∨ P b)
      (if q.workers then [.free .workers] else []) := by
    refine (Transfers.freeIf fun hset => .inl hset).congr (fun _ => Iff.rfl) fun b => ?_
    cases b <;> simp [PoolHeld, hworkers]
  have hsecond : Transfers (fun b => (b ≠ .workers ∧ PoolHeld q b) ∨ P b)
      (fun b => (q.gateReady = true ∧ b ∈ gateObjects) ∨ P b)
      (if q.threads.isSome then [.free .threads] else []) := by
    refine (Transfers.freeIf fun hset => .inl ⟨by simp, hset⟩).congr (fun _ => Iff.rfl)
      fun b => ?_
    cases b <;> simp [PoolHeld, mem_gateObjects, hthreads, and_comm, Option.isSome_iff_ne_none]
  have hthird : Transfers (fun b => (q.gateReady = true ∧ b ∈ gateObjects) ∨ P b) P
      (gateDestroyLog q.gateReady) := by
    cases q.gateReady with
    | false => exact .nil fun b => by simp
    | true =>
      have hreplay : replay heapStep gateObjects (gateDestroyLog true) = some ∅ := by decide
      refine (Transfers.frame hreplay (fun b hb => .inl ⟨rfl, hb⟩) fun e he hout => ?_).congr
        (fun _ => Iff.rfl) fun b => ?_
      · have hmem : ∀ e ∈ gateDestroyLog true, e.block ∈ gateObjects := by decide
        exact absurd (hmem e he) hout
      · have hb : b ∈ gateObjects → ¬ P b := by
          intro hb
          obtain ⟨x, -, rfl⟩ := mem_gateObjects.mp hb
          exact hgate x
        simp only [Finset.notMem_empty, false_or, true_and]
        tauto
  exact (hfirst.append hsecond).append hthird

end Storage

end AutoUpscale
