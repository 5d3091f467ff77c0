/-
A byte memory with image planes in it.

A plane is a base address and a pitch; its pixel `(x, y)` is the byte at
`base + y * pitch + x`.  `fill` overwrites a block of bytes at once, `memcpy` is
the block copy, `storeLoop` the loop that writes a row pixel by pixel.

- `addr_inj`, `pixels_disjoint`: pixels inside the pitch do not overlap.
- `storeLoop_eq_fill`: a loop that reads nothing it has already written is a
  `fill`.
- `Moves`: block copies that carry byte `S i` to `D i` for every index `i` of a
  set, each exactly once; `Moves.solo_eq` is their effect.
-/
import AutoUpscale.DisjointParallel
import Mathlib.Data.UInt
import Mathlib.Tactic.Linarith
import Mathlib.Order.Interval.Set.Basic

namespace PlaneMemory

open DisjointParallel

abbrev Memory := ℕ → UInt8

/-! ### Addresses -/

/-- The `n` bytes from `base` on. -/
def bytes (base n : ℕ) : Set ℕ := {a | base ≤ a ∧ a < base + n}

@[simp] theorem mem_bytes {base n a : ℕ} : a ∈ bytes base n ↔ base ≤ a ∧ a < base + n := Iff.rfl

theorem add_mem_bytes {base n k : ℕ} (h : k < n) : base + k ∈ bytes base n :=
  ⟨by omega, by omega⟩

/-- A byte of a block is its base plus an offset. -/
theorem exists_of_mem_bytes {base n a : ℕ} (h : a ∈ bytes base n) : ∃ k < n, a = base + k :=
  ⟨a - base, by have := h.2; have := h.1; omega, by have := h.1; omega⟩

/-- The address of pixel `(x, y)`. -/
def addr (base pitch y x : ℕ) : ℕ := base + y * pitch + x

/-- The pixels with a column in `xs` and a row in `ys`. -/
def pixels (base pitch : ℕ) (xs ys : Set ℕ) : Set ℕ :=
  {a | ∃ y ∈ ys, ∃ x ∈ xs, a = addr base pitch y x}

theorem addr_mem_pixels {base pitch x y : ℕ} {xs ys : Set ℕ} (hx : x ∈ xs) (hy : y ∈ ys) :
    addr base pitch y x ∈ pixels base pitch xs ys :=
  ⟨y, hy, x, hx, rfl⟩

theorem pixels_mono {base pitch : ℕ} {xs xs' ys ys' : Set ℕ} (hx : xs ⊆ xs') (hy : ys ⊆ ys') :
    pixels base pitch xs ys ⊆ pixels base pitch xs' ys' := by
  rintro a ⟨y, hmy, x, hmx, rfl⟩
  exact addr_mem_pixels (hx hmx) (hy hmy)

/-- Pixels within the pitch have their own addresses. -/
theorem addr_inj {base pitch x x' y y' : ℕ} (hx : x < pitch) (hx' : x' < pitch)
    (h : addr base pitch y x = addr base pitch y' x') : y = y' ∧ x = x' := by
  unfold addr at h
  have hcancel : x + pitch * y = x' + pitch * y' := by
    rw [Nat.mul_comm pitch y, Nat.mul_comm pitch y']
    omega
  have hpitch : 0 < pitch := by omega
  have hy : y = y' := by
    have hdiv := congrArg (· / pitch) hcancel
    simpa [Nat.add_mul_div_left _ _ hpitch, Nat.div_eq_of_lt hx, Nat.div_eq_of_lt hx'] using hdiv
  subst hy
  exact ⟨rfl, by omega⟩

theorem mem_pixels_iff {base pitch x y : ℕ} {xs ys : Set ℕ} (hx : x < pitch)
    (hxs : ∀ x ∈ xs, x < pitch) :
    addr base pitch y x ∈ pixels base pitch xs ys ↔ x ∈ xs ∧ y ∈ ys := by
  refine ⟨?_, fun h => addr_mem_pixels h.1 h.2⟩
  rintro ⟨y', hy', x', hx', h⟩
  obtain ⟨rfl, rfl⟩ := addr_inj hx (hxs x' hx') h
  exact ⟨hx', hy'⟩

/-- Parts of one plane that share no row or no column do not overlap. -/
theorem pixels_disjoint {base pitch : ℕ} {xs xs' ys ys' : Set ℕ} (hxs : ∀ x ∈ xs, x < pitch)
    (hxs' : ∀ x ∈ xs', x < pitch) (h : Disjoint xs xs' ∨ Disjoint ys ys') :
    Disjoint (pixels base pitch xs ys) (pixels base pitch xs' ys') := by
  rw [Set.disjoint_left]
  rintro a ⟨y, hy, x, hx, rfl⟩ ha
  obtain ⟨hx', hy'⟩ := (mem_pixels_iff (hxs x hx) hxs').mp ha
  rcases h with h | h
  · exact Set.disjoint_left.mp h hx hx'
  · exact Set.disjoint_left.mp h hy hy'

/-- A row of a plane is a block of bytes. -/
theorem bytes_row (base pitch y x n : ℕ) :
    bytes (addr base pitch y x) n = pixels base pitch {c | x ≤ c ∧ c < x + n} {y} := by
  ext a
  constructor
  · intro ha
    obtain ⟨k, hk, rfl⟩ := exists_of_mem_bytes ha
    exact ⟨y, rfl, x + k, ⟨by omega, by omega⟩, by unfold addr; omega⟩
  · rintro ⟨-, rfl, c, ⟨hc, hc'⟩, rfl⟩
    exact ⟨by unfold addr; omega, by unfold addr; omega⟩

/-- The upper left `w` by `h` pixels. -/
def rect (base pitch w h : ℕ) : Set ℕ := pixels base pitch (Set.Iio w) (Set.Iio h)

theorem addr_mem_rect {base pitch w h x y : ℕ} (hx : x < w) (hy : y < h) :
    addr base pitch y x ∈ rect base pitch w h :=
  addr_mem_pixels hx hy

theorem bytes_subset_rect {base pitch w h y x n : ℕ} (hy : y < h) (hn : x + n ≤ w) :
    bytes (addr base pitch y x) n ⊆ rect base pitch w h := by
  rw [bytes_row]
  refine pixels_mono (fun c hc => ?_) fun r hr => ?_
  · have := hc.2
    exact Set.mem_Iio.mpr (by omega)
  · rw [Set.mem_singleton_iff.mp hr]
    exact hy

/-- Pixel `(x, y)` of the part of a plane that starts at `(left, top)`. -/
theorem addr_addr (base pitch top left y x : ℕ) :
    addr (addr base pitch top left) pitch y x = addr base pitch (top + y) (left + x) := by
  unfold addr
  ring

/-- A rectangle that starts at row `r` of a plane. -/
theorem rect_subset_rect {base pitch w h r h' : ℕ} (hr : r + h' ≤ h) :
    rect (addr base pitch r 0) pitch w h' ⊆ rect base pitch w h := by
  rintro a ⟨y, hy, x, hx, rfl⟩
  have hy : y < h' := hy
  rw [addr_addr, Nat.zero_add]
  exact addr_mem_rect hx (by omega)

theorem rect_mono {base pitch w h h' : ℕ} (hle : h ≤ h') :
    rect base pitch w h ⊆ rect base pitch w h' :=
  pixels_mono le_rfl (Set.Iio_subset_Iio hle)

/-- Two runs of full rows of one plane, one above the other. -/
theorem rect_disjoint_rows {base pitch w r h r' h' : ℕ} (hw : w ≤ pitch)
    (hr : r + h ≤ r' ∨ r' + h' ≤ r) :
    Disjoint (rect (addr base pitch r 0) pitch w h) (rect (addr base pitch r' 0) pitch w h') := by
  rw [Set.disjoint_left]
  rintro a ⟨y, hy, x, hx, rfl⟩ ⟨y', hy', x', hx', heq⟩
  have hy : y < h := hy
  have hy' : y' < h' := hy'
  have hx : x < w := hx
  have hx' : x' < w := hx'
  have hrow : addr base pitch (r + y) x = addr base pitch (r' + y') x' := by
    unfold addr at heq ⊢
    linarith
  have := (addr_inj (by omega) (by omega) hrow).1
  omega

/-- A plane stays inside its buffer. -/
theorem rect_subset_bytes {base pitch w h : ℕ} (hw : w ≤ pitch) :
    rect base pitch w h ⊆ bytes base (h * pitch) := by
  rintro a ⟨y, hy, x, hx, rfl⟩
  have hx : x < w := hx
  have hrow : (y + 1) * pitch ≤ h * pitch := Nat.mul_le_mul_right pitch hy
  rw [Nat.succ_mul] at hrow
  exact ⟨by unfold addr; omega, by unfold addr; omega⟩

/-- Planes in separate buffers. -/
theorem rect_disjoint_of_le {base pitch w h base' pitch' w' h' : ℕ} (hw : w ≤ pitch)
    (hbase : base + h * pitch ≤ base') :
    Disjoint (rect base pitch w h) (rect base' pitch' w' h') := by
  rw [Set.disjoint_left]
  rintro a ha ⟨y, -, x, -, rfl⟩
  have := (rect_subset_bytes hw ha).2
  unfold addr at this
  omega

/-- The pixels of a plane in a memory, row first. -/
def planeAt (m : Memory) (base pitch : ℕ) : ℕ → ℕ → UInt8 := fun y x => m (addr base pitch y x)

/-! ### Writing a block -/

def store (m : Memory) (a : ℕ) (v : UInt8) : Memory := Function.update m a v

/-- Byte `k` of the block becomes `f k`. -/
def fill (m : Memory) (base n : ℕ) (f : ℕ → UInt8) : Memory :=
  fun a => if base ≤ a ∧ a < base + n then f (a - base) else m a

theorem fill_add {m : Memory} {base n k : ℕ} {f : ℕ → UInt8} (h : k < n) :
    fill m base n f (base + k) = f k := by
  rw [fill, if_pos ⟨by omega, by omega⟩, Nat.add_sub_cancel_left]

theorem fill_of_notMem {m : Memory} {base n a : ℕ} {f : ℕ → UInt8} (h : a ∉ bytes base n) :
    fill m base n f a = m a :=
  if_neg h

/-- `memcpy` of blocks that do not overlap. -/
def memcpy (m : Memory) (dst src n : ℕ) : Memory := fill m dst n fun k => m (src + k)

/-- The loop `for (x = 0; x < n; x++) out[x] = g(x)`, the value of each turn being
read from the memory that the turns before left. -/
def storeLoop (m : Memory) (out n : ℕ) (g : Memory → ℕ → UInt8) : Memory :=
  (List.range n).foldl (fun m x => store m (out + x) (g m x)) m

theorem storeLoop_eq_fill {m : Memory} {out n : ℕ} {g : Memory → ℕ → UInt8}
    (h : ∀ m' x, x < n → (∀ a, a < out ∨ out + x ≤ a → m' a = m a) → g m' x = g m x) :
    storeLoop m out n g = fill m out n (g m) := by
  unfold storeLoop
  induction n with
  | zero =>
    funext a
    rw [List.range_zero, List.foldl_nil, fill_of_notMem (by simp)]
  | succ n ih =>
    rw [List.range_succ, List.foldl_append, ih fun m' x hx => h m' x (by omega)]
    have hval : g (fill m out n (g m)) n = g m n := by
      refine h _ n (by omega) fun a ha => fill_of_notMem ?_
      rw [mem_bytes]
      omega
    funext a
    simp only [List.foldl_cons, List.foldl_nil, store, hval, Function.update_apply]
    by_cases ha : a = out + n
    · rw [if_pos ha, ha, fill_add (by omega)]
    · rw [if_neg ha]
      unfold fill
      by_cases hin : out ≤ a ∧ a < out + n
      · rw [if_pos hin, if_pos (by omega)]
      · rw [if_neg hin, if_neg (by omega)]

/-- Filling a block with values that depend on `reads` only is confined to both. -/
theorem confined_fill {base n : ℕ} {reads : Set ℕ} {v : Memory → ℕ → UInt8}
    (h : ∀ m m', Set.EqOn m m' reads → ∀ k < n, v m k = v m' k) :
    Confined (fun m => fill m base n (v m)) reads (bytes base n) := by
  refine ⟨fun m a ha => fill_of_notMem ha, fun {m m'} hm a ha => ?_⟩
  obtain ⟨k, hk, rfl⟩ := exists_of_mem_bytes ha
  rw [fill_add hk, fill_add hk]
  exact h m m' (hm.mono Set.subset_union_left) k hk

/-- Storing a value that depends on `reads` only. -/
theorem confined_store {a : ℕ} {reads : Set ℕ} {v : Memory → UInt8}
    (h : ∀ m m', Set.EqOn m m' reads → v m = v m') :
    Confined (fun m => store m a (v m)) reads {a} := by
  refine ⟨fun m b hb => Function.update_of_ne hb _ _, fun {m m'} hm b hb => ?_⟩
  obtain rfl := Set.mem_singleton_iff.mp hb
  simp only [store, Function.update_self]
  exact h m m' (hm.mono Set.subset_union_left)

theorem confined_memcpy (dst src n : ℕ) :
    Confined (fun m => memcpy m dst src n) (bytes src n) (bytes dst n) :=
  confined_fill fun _ _ hm _ hk => hm (add_mem_bytes hk)

/-! ### Lists of block copies -/

/-- The arguments of a `memcpy`. -/
structure Memcpy where
  dst : ℕ
  src : ℕ
  n : ℕ
  deriving DecidableEq, Repr

def Memcpy.run (c : Memcpy) (m : Memory) : Memory := memcpy m c.dst c.src c.n

theorem Memcpy.run_of_mem {c : Memcpy} {m : Memory} {a : ℕ} (h : a ∈ bytes c.dst c.n) :
    c.run m a = m (c.src + (a - c.dst)) :=
  if_pos h

theorem Memcpy.run_of_notMem {c : Memcpy} {m : Memory} {a : ℕ} (h : a ∉ bytes c.dst c.n) :
    c.run m a = m a :=
  if_neg h

instance (a base n : ℕ) : Decidable (a ∈ bytes base n) := instDecidableAnd

/-- The copies carry byte `S i` to `D i` for every `i` in `dom`, each once, and
nothing else. -/
structure Moves {I : Type*} (cs : List Memcpy) (dom : Set I) (D S : I → ℕ) : Prop where
  sound : ∀ c ∈ cs, ∀ k < c.n, ∃ i ∈ dom, c.dst + k = D i ∧ c.src + k = S i
  once : ∀ i ∈ dom, cs.countP (fun c => D i ∈ bytes c.dst c.n) = 1

namespace Moves

variable {I : Type*} {cs cs' : List Memcpy} {dom dom' : Set I} {D S : I → ℕ}

theorem exists_of_mem (h : Moves cs dom D S) {c : Memcpy} (hc : c ∈ cs) {a : ℕ}
    (ha : a ∈ bytes c.dst c.n) : ∃ i ∈ dom, a = D i ∧ c.src + (a - c.dst) = S i := by
  obtain ⟨k, hk, rfl⟩ := exists_of_mem_bytes ha
  rw [Nat.add_sub_cancel_left]
  exact h.sound c hc k hk

theorem countP_eq_zero (h : Moves cs dom D S) {a : ℕ} (ha : ∀ i ∈ dom, a ≠ D i) :
    cs.countP (fun c => a ∈ bytes c.dst c.n) = 0 := by
  refine List.countP_eq_zero.mpr fun c hc hmem => ?_
  obtain ⟨i, hi, heq, -⟩ := h.exists_of_mem hc (of_decide_eq_true hmem)
  exact ha i hi heq

/-- Copies of different bytes can follow each other. -/
theorem append (h : Moves cs dom D S) (h' : Moves cs' dom' D S)
    (hapart : ∀ i ∈ dom, ∀ j ∈ dom', D i ≠ D j) : Moves (cs ++ cs') (dom ∪ dom') D S := by
  refine ⟨fun c hc k hk => ?_, fun i hi => ?_⟩
  · rcases List.mem_append.mp hc with hc | hc
    · obtain ⟨i, hi, heq⟩ := h.sound c hc k hk
      exact ⟨i, .inl hi, heq⟩
    · obtain ⟨i, hi, heq⟩ := h'.sound c hc k hk
      exact ⟨i, .inr hi, heq⟩
  · rw [List.countP_append]
    rcases hi with hi | hi
    · rw [h.once i hi, h'.countP_eq_zero fun j hj => hapart i hi j hj]
    · rw [h'.once i hi, h.countP_eq_zero fun j hj => (hapart j hj i hi).symm]

/-- The same copies under other names for the bytes. -/
theorem reindex {J : Type*} (h : Moves cs dom D S) (D' S' : J → ℕ) (f : I → J)
    (hD : ∀ i, D' (f i) = D i) (hS : ∀ i, S' (f i) = S i) : Moves cs (f '' dom) D' S' := by
  refine ⟨fun c hc k hk => ?_, ?_⟩
  · obtain ⟨i, hi, hd, hs⟩ := h.sound c hc k hk
    exact ⟨f i, ⟨i, hi, rfl⟩, hd.trans (hD i).symm, hs.trans (hS i).symm⟩
  · rintro - ⟨i, hi, rfl⟩
    simp only [hD]
    exact h.once i hi

/-- Copies of different bytes, one list for each label. -/
theorem flatMap {L : Type*} {ls : List L} {cs : L → List Memcpy} {dom : L → Set I}
    {D S : L → I → ℕ} (hnodup : ls.Nodup) (h : ∀ l ∈ ls, Moves (cs l) (dom l) (D l) (S l))
    (hapart : ∀ l ∈ ls, ∀ l' ∈ ls, l ≠ l' → ∀ i ∈ dom l, ∀ j ∈ dom l', D l i ≠ D l' j) :
    Moves (ls.flatMap cs) {k : L × I | k.1 ∈ ls ∧ k.2 ∈ dom k.1} (fun k => D k.1 k.2)
      (fun k => S k.1 k.2) := by
  induction ls with
  | nil => exact ⟨by simp, by simp⟩
  | cons l ls ih =>
    obtain ⟨hl, hnodup⟩ := List.nodup_cons.mp hnodup
    have hhead := (h l (by simp)).reindex (fun k : L × I => D k.1 k.2)
      (fun k => S k.1 k.2) (fun i => (l, i)) (fun _ => rfl) (fun _ => rfl)
    have htail := ih hnodup (fun l' hl' => h l' (List.mem_cons_of_mem _ hl'))
      fun l₁ h₁ l₂ h₂ => hapart l₁ (List.mem_cons_of_mem _ h₁) l₂ (List.mem_cons_of_mem _ h₂)
    have happ := hhead.append htail (by
      rintro - ⟨i, hi, rfl⟩ ⟨l', j⟩ ⟨hl', hj⟩
      exact hapart l (by simp) l' (List.mem_cons_of_mem _ hl') (fun heq => hl (heq ▸ hl')) i hi j hj)
    rw [List.flatMap_cons]
    convert happ using 1
    ext ⟨l', i⟩
    simp only [List.mem_cons, Set.mem_union, Set.mem_image, Prod.mk.injEq]
    constructor
    · rintro ⟨rfl | hl', hi⟩
      · exact .inl ⟨i, hi, rfl, rfl⟩
      · exact .inr ⟨hl', hi⟩
    · rintro (⟨i, hi, rfl, rfl⟩ | ⟨hl', hi⟩)
      · exact ⟨.inl rfl, hi⟩
      · exact ⟨.inr hl', hi⟩

theorem bytes_dst_subset (h : Moves cs dom D S) {c : Memcpy} (hc : c ∈ cs) :
    bytes c.dst c.n ⊆ D '' dom := fun _ ha =>
  let ⟨i, hi, heq, _⟩ := h.exists_of_mem hc ha
  ⟨i, hi, heq.symm⟩

theorem bytes_src_subset (h : Moves cs dom D S) {c : Memcpy} (hc : c ∈ cs) :
    bytes c.src c.n ⊆ S '' dom := by
  intro a ha
  obtain ⟨k, hk, rfl⟩ := exists_of_mem_bytes ha
  obtain ⟨i, hi, -, heq⟩ := h.sound c hc k hk
  exact ⟨i, hi, heq.symm⟩

/-- Every byte of the target is written by some copy. -/
theorem exists_copy (h : Moves cs dom D S) {i : I} (hi : i ∈ dom) :
    ∃ c ∈ cs, D i ∈ bytes c.dst c.n := by
  have hpos : 0 < cs.countP fun c => D i ∈ bytes c.dst c.n := by rw [h.once i hi]; exact one_pos
  obtain ⟨c, hc, htouch⟩ := List.countP_pos_iff.mp hpos
  exact ⟨c, hc, of_decide_eq_true htouch⟩

/-- The bytes arrive, when nothing that is still to be read is overwritten. -/
theorem solo_eq (h : Moves cs dom D S) (hinj : Set.InjOn D dom)
    (hsep : ∀ i ∈ dom, ∀ j ∈ dom, D i ≠ S j) (m : Memory) {i : I} (hi : i ∈ dom) :
    solo Memcpy.run cs m (D i) = m (S i) := by
  refine solo_settles (P := fun m' => ∀ j ∈ dom, m' (S j) = m (S j))
    (fun c => D i ∈ bytes c.dst c.n) ?_ ?_ ?_ ?_ fun _ _ => rfl
  · intro c hc m' hm' j hj
    rw [← hm' j hj]
    refine Memcpy.run_of_notMem fun hmem => ?_
    obtain ⟨k, hk, heq, -⟩ := h.exists_of_mem hc hmem
    exact hsep k hk j hj heq.symm
  · intro c hc m' hm' htouch
    obtain ⟨j, hj, heq, hsrc⟩ := h.exists_of_mem hc htouch
    obtain rfl := hinj hi hj heq
    rw [Memcpy.run_of_mem htouch, hsrc, hm' i hi]
  · intro c _ m' htouch
    exact Memcpy.run_of_notMem htouch
  · exact h.exists_copy hi

theorem solo_frame (h : Moves cs dom D S) (m : Memory) {a : ℕ} (ha : ∀ i ∈ dom, a ≠ D i) :
    solo Memcpy.run cs m a = m a := by
  refine DisjointParallel.solo_frame (fun c hc m' => Memcpy.run_of_notMem fun hmem => ?_) m
  obtain ⟨i, hi, heq, -⟩ := h.exists_of_mem hc hmem
  exact ha i hi heq

end Moves

end PlaneMemory
