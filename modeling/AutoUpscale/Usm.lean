/-
The unsharp mask of one luma plane: the row kernels of `src/usm.h` and the
single-threaded reference of `tests/usm_reference.h`.

The kernels are memory loops as in the source.  `hblurRow_eq_fill` and
`combineRow_eq_fill` turn each into one block write of a pure row function, given
what the `restrict` qualifiers and the aliasing comment of the source promise.

- `applyPlane_eq`: on buffers that do not overlap the reference writes `usmAt`,
  pixel by pixel.

Widths and heights are natural numbers once the argument checks have passed.
-/
import AutoUpscale.PlaneCopy

namespace AutoUpscale

open DisjointParallel PlaneMemory

/-! ### The kernels -/

/-- `up_usm__hblur_row` -/
def hblurRow (m : Memory) (out inp width : ℕ) : Memory :=
  if width = 0 then m
  else if width = 1 then store m out (m inp)
  else
    let m := store m out (.ofNat (((m inp).toNat * 3 + (m (inp + 1)).toNat + 2) >>> 2))
    -- turn k of the loop is pixel x = k + 1
    let m := storeLoop m (out + 1) (width - 2) fun m k =>
      .ofNat (((m (inp + k)).toNat + (m (inp + k + 1)).toNat <<< 1 +
        (m (inp + k + 2)).toNat + 2) >>> 2)
    store m (out + (width - 1))
      (.ofNat (((m (inp + (width - 2))).toNat + (m (inp + (width - 1))).toNat * 3 + 2) >>> 2))

/-- `UP_USM_AMOUNT_Q8_MAX` -/
def usmAmountQ8Max : ℤ := 4096

/-- `up_usm__clamp_amount_q8` -/
def clampAmountQ8 (amountQ8 : ℤ) : ℤ :=
  if amountQ8 < 0 then 0
  else if amountQ8 > usmAmountQ8Max then usmAmountQ8Max
  else amountQ8

/-- `up_usm__floor_div_q8` -/
def floorDivQ8 (value : ℤ) : ℤ :=
  let quotient := value.tdiv 256
  if value < 0 ∧ value.tmod 256 ≠ 0 then quotient - 1 else quotient

/-- The body of the loop of `up_usm__combine_row`: source pixel `s` and the three
blurred ones. -/
def combinePixel (amountQ8 : ℤ) (s up mid dn : UInt8) : UInt8 :=
  let blur : ℤ := ((up.toNat + mid.toNat <<< 1 + dn.toNat + 2) >>> 2 : ℕ)
  let hi := (s.toNat : ℤ) - blur
  let sharpened := (s.toNat : ℤ) + floorDivQ8 (amountQ8 * hi)
  let sharpened := if sharpened < 0 then 0 else if sharpened > 255 then 255 else sharpened
  .ofNat sharpened.toNat

/-- `up_usm__combine_row` -/
def combineRow (m : Memory) (dst src up mid dn width : ℕ) (amountQ8 : ℤ) : Memory :=
  storeLoop m dst width fun m x =>
    combinePixel amountQ8 (m (src + x)) (m (up + x)) (m (mid + x)) (m (dn + x))

/-- `up_usm__apply_identity` -/
def applyIdentity (m : Memory) (dst : ℕ) (dstStride : ℤ) (src : ℕ) (srcStride width height : ℤ) :
    Memory :=
  if dst = src ∧ dstStride = srcStride then m
  else copyPlane m dst dstStride src srcStride width height

/-- `up_usm__plane_args_ok`; a NULL buffer is `none`. -/
def usmPlaneArgsOk (dst : Option ℕ) (dstStride : ℤ) (src : Option ℕ) (srcStride width : ℤ) :
    Bool :=
  if dst = none ∨ src = none then false
  else if dstStride < width ∨ srcStride < width then false
  else true

/-! ### The reference -/

/-- `up_usm_plane_io_t` -/
structure UsmPlaneIo where
  dst : Option ℕ
  dstStride : ℤ
  src : Option ℕ
  srcStride : ℤ
  width : ℤ
  height : ℤ

/-- `up_usm__args_valid` -/
def usmArgsValid (io : UsmPlaneIo) : Bool :=
  if io.width ≤ 0 ∨ io.height ≤ 0 then false
  else usmPlaneArgsOk io.dst io.dstStride io.src io.srcStride io.width

/-- `up_usm__pass1_hblur` -/
def pass1Hblur (m : Memory) (workspace src srcStride width height : ℕ) : Memory :=
  (List.range height).foldl
    (fun m y => hblurRow m (workspace + y * width) (src + y * srcStride) width) m

/-- `up_usm__pass2_combine` -/
def pass2Combine (m : Memory) (dst dstStride src srcStride width height workspace : ℕ)
    (amountQ8 : ℤ) : Memory :=
  (List.range height).foldl
    (fun m y =>
      let yu := if y > 0 then y - 1 else 0
      let yd := if y < height - 1 then y + 1 else height - 1
      combineRow m (dst + y * dstStride) (src + y * srcStride) (workspace + yu * width)
        (workspace + y * width) (workspace + yd * width) width amountQ8) m

/-- `up_usm_apply_plane`: the returned flag and the memory after it. -/
def applyPlane (m : Memory) (io : Option UsmPlaneIo) (amountQ8 : ℤ) (workspace : Option ℕ) :
    Bool × Memory :=
  match io with
  | none => (false, m)
  | some io =>
    match io.dst, io.src with
    | some dst, some src =>
      if usmArgsValid io = false then (false, m)
      else
        let amountQ8 := clampAmountQ8 amountQ8
        if amountQ8 = 0 then
          (true, applyIdentity m dst io.dstStride src io.srcStride io.width io.height)
        else
          match workspace with
          | none => (false, m)
          | some workspace =>
            let m := pass1Hblur m workspace src io.srcStride.toNat io.width.toNat io.height.toNat
            (true, pass2Combine m dst io.dstStride.toNat src io.srcStride.toNat io.width.toNat
              io.height.toNat workspace amountQ8)
    | _, _ => (false, m)

/-! ### Row functions -/

/-- Pixel `x` of the blurred row. -/
def hblurAt (row : ℕ → UInt8) (w x : ℕ) : UInt8 :=
  if w = 1 then row 0
  else if x = 0 then .ofNat (((row 0).toNat * 3 + (row 1).toNat + 2) >>> 2)
  else if x = w - 1 then
    .ofNat (((row (w - 2)).toNat + (row (w - 1)).toNat * 3 + 2) >>> 2)
  else
    .ofNat (((row (x - 1)).toNat + (row x).toNat <<< 1 + (row (x + 1)).toNat + 2) >>> 2)

/-- The row above, clamped to the plane. -/
def rowAbove (y : ℕ) : ℕ := if y > 0 then y - 1 else 0

/-- The row below, clamped to a plane of `h` rows. -/
def rowBelow (h y : ℕ) : ℕ := if y < h - 1 then y + 1 else h - 1

/-- Pixel `(x, y)` of the sharpened plane. -/
def usmAt (plane : ℕ → ℕ → UInt8) (w h : ℕ) (amountQ8 : ℤ) (y x : ℕ) : UInt8 :=
  combinePixel amountQ8 (plane y x) (hblurAt (plane (rowAbove y)) w x) (hblurAt (plane y) w x)
    (hblurAt (plane (rowBelow h y)) w x)

theorem rowAbove_lt {h y : ℕ} (hy : y < h) : rowAbove y < h := by
  unfold rowAbove
  split <;> omega

theorem rowBelow_lt {h y : ℕ} (hy : y < h) : rowBelow h y < h := by
  unfold rowBelow
  split <;> omega

/-- The blur looks at the row only inside its width. -/
theorem hblurAt_congr {row row' : ℕ → UInt8} {w x : ℕ} (hx : x < w)
    (h : ∀ k < w, row k = row' k) : hblurAt row w x = hblurAt row' w x := by
  unfold hblurAt
  by_cases hw : w = 1
  · rw [if_pos hw, if_pos hw, h 0 (by omega)]
  rw [if_neg hw, if_neg hw]
  by_cases h0 : x = 0
  · rw [if_pos h0, if_pos h0, h 0 (by omega), h 1 (by omega)]
  rw [if_neg h0, if_neg h0]
  by_cases hlast : x = w - 1
  · rw [if_pos hlast, if_pos hlast, h (w - 2) (by omega), h (w - 1) (by omega)]
  · rw [if_neg hlast, if_neg hlast, h (x - 1) (by omega), h x hx, h (x + 1) (by omega)]

/-! ### The kernels as block writes -/

theorem notMem_of_disjoint {base inp w k : ℕ} (h : Disjoint (bytes base w) (bytes inp w))
    (hk : k < w) : inp + k ∉ bytes base w :=
  fun hmem => Set.disjoint_left.mp h hmem (add_mem_bytes hk)

/-- With separate buffers the blur writes the blurred row. -/
theorem hblurRow_eq_fill {m : Memory} {out inp w : ℕ}
    (h : Disjoint (bytes out w) (bytes inp w)) :
    hblurRow m out inp w = fill m out w (hblurAt (fun x => m (inp + x)) w) := by
  -- an input byte is none of those written so far
  have hin : ∀ m' : Memory, (∀ a, a ∉ bytes out w → m' a = m a) → ∀ k < w,
      m' (inp + k) = m (inp + k) := fun m' hm' k hk => hm' _ (notMem_of_disjoint h hk)
  unfold hblurRow
  split
  · rename_i hw
    funext a
    rw [fill_of_notMem (by simp [hw])]
  split
  · rename_i hw
    funext a
    rw [store, Function.update_apply, fill]
    by_cases ha : a = out
    · rw [if_pos ha, if_pos (by omega), hblurAt, if_pos hw, Nat.add_zero]
    · rw [if_neg ha, if_neg (by omega)]
  rename_i h0 h1
  simp only
  set m₁ := store m out (.ofNat (((m inp).toNat * 3 + (m (inp + 1)).toNat + 2) >>> 2)) with hm₁
  have hne : ∀ {a k}, a ∉ bytes out w → k < w → a ≠ out + k := fun ha hk heq =>
    ha (heq ▸ add_mem_bytes hk)
  have hout₁ : ∀ a, a ∉ bytes out w → m₁ a = m a := fun a ha =>
    Function.update_of_ne (hne (k := 0) ha (by omega)) _ _
  rw [storeLoop_eq_fill]
  swap
  · intro m' k hk hm'
    have hsame : ∀ j < w, m' (inp + j) = m₁ (inp + j) := by
      intro j hj
      refine hm' _ ?_
      by_contra hnot
      exact notMem_of_disjoint h hj ⟨by omega, by omega⟩
    rw [Nat.add_assoc inp k 1, Nat.add_assoc inp k 2, hsame k (by omega),
      hsame (k + 1) (by omega), hsame (k + 2) (by omega)]
  funext a
  have hout₂ : ∀ (f : ℕ → UInt8), ∀ a, a ∉ bytes out w →
      fill m₁ (out + 1) (w - 2) f a = m a := by
    intro f a ha
    rw [fill_of_notMem fun hmem => ha ⟨by have := hmem.1; omega, by have := hmem.2; omega⟩]
    exact hout₁ a ha
  by_cases ha : a ∈ bytes out w
  swap
  · rw [fill_of_notMem ha, store, Function.update_of_ne (hne ha (by omega))]
    exact hout₂ _ a ha
  obtain ⟨x, hx, rfl⟩ := exists_of_mem_bytes ha
  rw [fill_add hx, hblurAt, if_neg h1, store, Function.update_apply]
  by_cases hlast : x = w - 1
  · rw [if_pos (by rw [hlast]), if_neg (by omega), if_pos hlast,
      hin _ (hout₂ _) (w - 2) (by omega), hin _ (hout₂ _) (w - 1) (by omega)]
  rw [if_neg (by omega)]
  by_cases hfirst : x = 0
  · rw [if_pos hfirst, hfirst, Nat.add_zero,
      fill_of_notMem (by rw [mem_bytes]; omega), hm₁, store]
    exact Function.update_self _ _ _
  · obtain ⟨k, rfl⟩ : ∃ k, x = k + 1 := ⟨x - 1, by omega⟩
    rw [if_neg hfirst, if_neg hlast, show out + (k + 1) = out + 1 + k by omega,
      fill_add (by omega), Nat.add_assoc inp k 1, Nat.add_assoc inp k 2,
      hin _ hout₁ k (by omega), hin _ hout₁ (k + 1) hx, hin _ hout₁ (k + 2) (by omega)]
    rfl

/-- The source row may be the destination row: each pixel is read before it is
written. -/
theorem combineRow_eq_fill {m : Memory} {dst src up mid dn w : ℕ} {amountQ8 : ℤ}
    (hsrc : src = dst ∨ Disjoint (bytes dst w) (bytes src w))
    (hup : Disjoint (bytes dst w) (bytes up w)) (hmid : Disjoint (bytes dst w) (bytes mid w))
    (hdn : Disjoint (bytes dst w) (bytes dn w)) :
    combineRow m dst src up mid dn w amountQ8 = fill m dst w fun x =>
      combinePixel amountQ8 (m (src + x)) (m (up + x)) (m (mid + x)) (m (dn + x)) := by
  refine storeLoop_eq_fill fun m' x hx hm' => ?_
  have hother : ∀ {inp}, Disjoint (bytes dst w) (bytes inp w) → m' (inp + x) = m (inp + x) := by
    intro inp hdisj
    refine hm' _ ?_
    by_contra hnot
    exact notMem_of_disjoint hdisj hx ⟨by omega, by omega⟩
  have hs : m' (src + x) = m (src + x) := by
    rcases hsrc with rfl | hsrc
    · exact hm' _ (.inr le_rfl)
    · exact hother hsrc
  rw [hs, hother hup, hother hmid, hother hdn]

/-! ### What the reference computes -/

theorem pass1Hblur_spec {m : Memory} {workspace src ss w h : ℕ}
    (hsep : Disjoint (rect workspace w w h) (rect src ss w h)) :
    (∀ y < h, ∀ x < w, pass1Hblur m workspace src ss w h (addr workspace w y x) =
        hblurAt (planeAt m src ss y) w x) ∧
      ∀ a ∉ rect workspace w w h, pass1Hblur m workspace src ss w h a = m a := by
  have hrow : ∀ y < h, Disjoint (bytes (workspace + y * w) w) (bytes (src + y * ss) w) :=
    fun y hy => hsep.mono (bytes_subset_rect (x := 0) hy (by omega))
      (bytes_subset_rect (x := 0) hy (by omega))
  have hrun : ∀ m' : Memory, ∀ y < h, ∀ a ∉ bytes (workspace + y * w) w,
      hblurRow m' (workspace + y * w) (src + y * ss) w a = m' a := by
    intro m' y hy a ha
    rw [hblurRow_eq_fill (hrow y hy), fill_of_notMem ha]
  refine ⟨fun y hy x hx => ?_, fun a ha => ?_⟩
  · refine solo_settles (P := fun m' => Set.EqOn m' m (rect src ss w h))
      (fun r => r = y) (fun r hr m' hm' a ha => ?_) (fun r hr m' hm' htouch => ?_)
      (fun r hr m' htouch => ?_) ⟨y, List.mem_range.mpr hy, rfl⟩ fun _ _ => rfl
    · rw [← hm' ha]
      exact hrun m' r (List.mem_range.mp hr) a fun hmem => Set.disjoint_left.mp hsep
        (bytes_subset_rect (x := 0) (List.mem_range.mp hr) (by omega) hmem) ha
    · subst htouch
      rw [hblurRow_eq_fill (hrow r hy), addr, fill_add hx]
      exact hblurAt_congr hx fun k hk => hm' (addr_mem_rect hk hy)
    · refine hrun m' r (List.mem_range.mp hr) _ fun hmem => htouch ?_
      obtain ⟨k, hk, heq⟩ := exists_of_mem_bytes hmem
      exact (addr_inj hx hk heq).1.symm
  · exact solo_frame (fun y hy m' => hrun m' y (List.mem_range.mp hy) a fun hmem =>
      ha (bytes_subset_rect (x := 0) (List.mem_range.mp hy) (by omega) hmem)) m

/-- In place too, since a row is read before it is written. -/
theorem pass2Combine_spec {m : Memory} {dst ds src ss w h workspace : ℕ} {amountQ8 : ℤ}
    (hd : w ≤ ds) (hsep : (dst = src ∧ ds = ss) ∨ Disjoint (rect dst ds w h) (rect src ss w h))
    (hsep' : Disjoint (rect dst ds w h) (rect workspace w w h)) {y x : ℕ} (hy : y < h)
    (hx : x < w) :
    pass2Combine m dst ds src ss w h workspace amountQ8 (addr dst ds y x) =
      combinePixel amountQ8 (m (addr src ss y x)) (m (addr workspace w (rowAbove y) x))
        (m (addr workspace w y x)) (m (addr workspace w (rowBelow h y) x)) := by
  have hwork : ∀ {r r'}, r < h → r' < h →
      Disjoint (bytes (dst + r * ds) w) (bytes (workspace + r' * w) w) :=
    fun hr hr' => hsep'.mono (bytes_subset_rect (x := 0) hr (by omega))
      (bytes_subset_rect (x := 0) hr' (by omega))
  -- a row of the source is the row written, or apart from it
  have hself : ∀ {r}, r < h → src + r * ss = dst + r * ds ∨
      Disjoint (bytes (dst + r * ds) w) (bytes (src + r * ss) w) := by
    intro r hr
    rcases hsep with ⟨rfl, rfl⟩ | hsep
    · exact .inl rfl
    · exact .inr (hsep.mono (bytes_subset_rect (x := 0) hr (by omega))
        (bytes_subset_rect (x := 0) hr (by omega)))
  have hother : ∀ {r}, r < h → r ≠ y →
      Disjoint (bytes (dst + r * ds) w) (bytes (src + y * ss) w) := by
    intro r hr hne
    rcases hsep with ⟨rfl, rfl⟩ | hsep
    · refine Set.disjoint_left.mpr fun a ha ha' => hne ?_
      obtain ⟨k, hk, rfl⟩ := exists_of_mem_bytes ha
      obtain ⟨k', hk', heq⟩ := exists_of_mem_bytes ha'
      exact (addr_inj (hk.trans_le hd) (hk'.trans_le hd) heq).1
    · exact hsep.mono (bytes_subset_rect (x := 0) hr (by omega))
        (bytes_subset_rect (x := 0) hy (by omega))
  have hrun : ∀ m' : Memory, ∀ r < h,
      combineRow m' (dst + r * ds) (src + r * ss) (workspace + rowAbove r * w)
        (workspace + r * w) (workspace + rowBelow h r * w) w amountQ8 =
      fill m' (dst + r * ds) w fun x => combinePixel amountQ8 (m' (addr src ss r x))
        (m' (addr workspace w (rowAbove r) x)) (m' (addr workspace w r x))
        (m' (addr workspace w (rowBelow h r) x)) := fun m' r hr =>
    combineRow_eq_fill (hself hr) (hwork hr (rowAbove_lt hr)) (hwork hr hr)
      (hwork hr (rowBelow_lt hr))
  refine solo_settles_once
    (P := fun m' => Set.EqOn m' m (bytes (src + y * ss) w ∪ rect workspace w w h))
    List.nodup_range (List.mem_range.mpr hy) (fun r hr hne m' hm' a ha => ?_)
    (fun m' hm' => ?_) (fun r hr hne m' => ?_) fun _ _ => rfl
  · rw [← hm' ha]
    refine (congrFun (hrun m' r (List.mem_range.mp hr)) a).trans (fill_of_notMem fun hmem => ?_)
    rcases ha with ha | ha
    · exact Set.disjoint_left.mp (hother (List.mem_range.mp hr) hne) hmem ha
    · exact Set.disjoint_left.mp hsep'
        (bytes_subset_rect (x := 0) (List.mem_range.mp hr) (by omega) hmem) ha
  · have hread : m' (addr src ss y x) = m (addr src ss y x) := hm' (.inl (add_mem_bytes hx))
    refine (congrFun (hrun m' y hy) _).trans ?_
    rw [addr, fill_add hx, hread,
      hm' (.inr (addr_mem_rect hx (rowAbove_lt hy))), hm' (.inr (addr_mem_rect hx hy)),
      hm' (.inr (addr_mem_rect hx (rowBelow_lt hy)))]
  · refine (congrFun (hrun m' r (List.mem_range.mp hr)) _).trans
      (fill_of_notMem fun hmem => hne ?_)
    obtain ⟨k, hk, heq⟩ := exists_of_mem_bytes hmem
    exact (addr_inj (hx.trans_le hd) (hk.trans_le hd) heq).1.symm

/-- Amount 0 keeps the pixel. -/
@[simp] theorem combinePixel_zero (s up mid dn : UInt8) : combinePixel 0 s up mid dn = s := by
  have hs := s.toNat_lt
  have hdiv : floorDivQ8 0 = 0 := rfl
  unfold combinePixel
  dsimp only
  rw [zero_mul, hdiv, add_zero, if_neg (by omega), if_neg (by omega), Int.toNat_natCast]
  exact UInt8.ofNat_toNat

theorem applyIdentity_spec {m : Memory} {dst ds src ss w h : ℕ} (hd : w ≤ ds) (hs : w ≤ ss)
    (hsep : (dst = src ∧ ds = ss) ∨ Disjoint (rect dst ds w h) (rect src ss w h)) :
    (∀ y < h, ∀ x < w, applyIdentity m dst ds src ss w h (addr dst ds y x) =
        m (addr src ss y x)) ∧
      ∀ a ∉ rect dst ds w h, applyIdentity m dst ds src ss w h a = m a := by
  unfold applyIdentity
  split
  · rename_i heq
    obtain ⟨rfl, hss⟩ := heq
    obtain rfl : ds = ss := by exact_mod_cast hss
    exact ⟨fun _ _ _ _ => rfl, fun _ _ => rfl⟩
  rename_i hne
  have hmoves : Moves (copyPlaneSteps dst ds src ss w h) (rectangle w h)
      (fun i => addr dst ds i.1 i.2) (fun i => addr src ss i.1 i.2) :=
    copyPlaneSteps_moves dst src h hd hs
  have hsep : Disjoint (rect dst ds w h) (rect src ss w h) := hsep.resolve_left fun heq =>
    hne ⟨heq.1, by exact_mod_cast heq.2⟩
  refine ⟨fun y hy x hx => ?_, fun a ha => ?_⟩
  · refine hmoves.solo_eq ?_ ?_ m (i := (y, x)) ⟨hy, hx⟩
    · intro i hi j hj heq
      obtain ⟨hrow, hcol⟩ := addr_inj (hi.2.trans_le hd) (hj.2.trans_le hd) heq
      exact Prod.ext hrow hcol
    · intro i hi j hj heq
      refine Set.disjoint_left.mp hsep (addr_mem_rect hi.2 hi.1) ?_
      rw [heq]
      exact addr_mem_rect hj.2 hj.1
  · refine hmoves.solo_frame m fun i hi heq => ha ?_
    rw [heq]
    exact addr_mem_rect hi.2 hi.1

/-- In place, or on planes that do not overlap, the reference writes the sharpened
plane. -/
theorem applyPlane_eq (m : Memory) {dst ds src ss w h workspace : ℕ} (amountQ8 : ℤ)
    (hw : 0 < w) (hh : 0 < h) (hd : w ≤ ds) (hs : w ≤ ss)
    (hsrc : (dst = src ∧ ds = ss) ∨ Disjoint (rect dst ds w h) (rect src ss w h))
    (hwork : Disjoint (rect dst ds w h) (rect workspace w w h))
    (hblur : Disjoint (rect workspace w w h) (rect src ss w h)) :
    let r := applyPlane m (some ⟨some dst, ds, some src, ss, w, h⟩) amountQ8 (some workspace)
    r.1 = true ∧ ∀ y < h, ∀ x < w, r.2 (addr dst ds y x) =
      usmAt (planeAt m src ss) w h (clampAmountQ8 amountQ8) y x := by
  have hvalid : usmArgsValid ⟨some dst, ds, some src, ss, w, h⟩ = true := by
    unfold usmArgsValid usmPlaneArgsOk
    dsimp only
    rw [if_neg (by omega), if_neg (by simp), if_neg (by omega)]
  simp only [applyPlane, hvalid, Bool.true_eq_false, if_false]
  split
  · rename_i hzero
    refine ⟨rfl, fun y hy x hx => ?_⟩
    rw [hzero, usmAt, combinePixel_zero]
    exact (applyIdentity_spec hd hs hsrc).1 y hy x hx
  · refine ⟨rfl, fun y hy x hx => ?_⟩
    simp only [Int.toNat_natCast]
    obtain ⟨hval, hkeep⟩ := pass1Hblur_spec (m := m) hblur
    rw [pass2Combine_spec hd hsrc hwork hy hx, hval _ (rowAbove_lt hy) x hx, hval y hy x hx,
      hval _ (rowBelow_lt hy) x hx,
      hkeep _ fun hmem => Set.disjoint_left.mp hblur hmem (addr_mem_rect hx hy)]
    rfl

end AutoUpscale
