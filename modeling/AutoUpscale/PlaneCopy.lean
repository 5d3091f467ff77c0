/-
The plane copy of `src/plane_utils.h`.

`copyPlaneSteps` is the list of `memcpy` calls `up_copy_plane` makes: none, one
for a contiguous block, or one for each row.  `copyPlaneSteps_moves` says that
either way each byte of the rectangle is carried over exactly once.
-/
import AutoUpscale.PlaneMemory

namespace AutoUpscale

open DisjointParallel PlaneMemory

/-- The `memcpy` calls of `up_copy_plane`. -/
def copyPlaneSteps (dst : ℕ) (dstStride : ℤ) (src : ℕ) (srcStride rowBytes rows : ℤ) :
    List Memcpy :=
  if rows ≤ 0 ∨ rowBytes ≤ 0 then []
  else if dstStride < rowBytes ∨ srcStride < rowBytes then []
  else if dstStride = srcStride ∧ rowBytes = srcStride then
    [⟨dst, src, rows.toNat * rowBytes.toNat⟩]
  else
    (List.range rows.toNat).map fun r =>
      ⟨dst + r * dstStride.toNat, src + r * srcStride.toNat, rowBytes.toNat⟩

/-- `up_copy_plane` -/
def copyPlane (m : Memory) (dst : ℕ) (dstStride : ℤ) (src : ℕ)
    (srcStride rowBytes rows : ℤ) : Memory :=
  solo Memcpy.run (copyPlaneSteps dst dstStride src srcStride rowBytes rows) m

/-- The pixels of a plane of `w` bytes by `h` rows, row first. -/
def rectangle (w h : ℕ) : Set (ℕ × ℕ) := {i | i.1 < h ∧ i.2 < w}

/-- One `memcpy` for each row. -/
theorem rowCopies_moves {dst ds src ss w h : ℕ} (hd : w ≤ ds) :
    Moves ((List.range h).map fun r => ⟨dst + r * ds, src + r * ss, w⟩) (rectangle w h)
      (fun i => addr dst ds i.1 i.2) (fun i => addr src ss i.1 i.2) := by
  refine ⟨fun c hc k hk => ?_, fun i hi => ?_⟩
  · obtain ⟨r, hr, rfl⟩ := List.mem_map.mp hc
    exact ⟨(r, k), ⟨List.mem_range.mp hr, hk⟩, rfl, rfl⟩
  · rw [List.countP_map]
    have hrow : ∀ r, addr dst ds i.1 i.2 ∈ bytes (dst + r * ds) w ↔ r = i.1 := by
      intro r
      refine ⟨fun hmem => ?_, fun hr => hr ▸ add_mem_bytes hi.2⟩
      obtain ⟨k, hk, heq⟩ := exists_of_mem_bytes hmem
      exact (addr_inj (hi.2.trans_le hd) (hk.trans_le hd) heq).1.symm
    have hcount : (List.range h).countP
        ((fun c : Memcpy => decide (addr dst ds i.1 i.2 ∈ bytes c.dst c.n)) ∘
          fun r => ⟨dst + r * ds, src + r * ss, w⟩) = (List.range h).count i.1 := by
      refine List.countP_congr fun r _ => ?_
      simp only [Function.comp_apply, decide_eq_true_eq, beq_iff_eq]
      exact hrow r
    rw [hcount]
    exact List.count_eq_one_of_mem List.nodup_range (List.mem_range.mpr hi.1)

/-- Rows without padding in between are one block. -/
theorem blockCopy_moves (dst src w h : ℕ) :
    Moves [⟨dst, src, h * w⟩] (rectangle w h) (fun i => addr dst w i.1 i.2)
      (fun i => addr src w i.1 i.2) := by
  refine ⟨fun c hc k hk => ?_, fun i hi => ?_⟩
  · obtain rfl := List.mem_singleton.mp hc
    have hk : k < h * w := hk
    have hw : 0 < w := Nat.pos_of_ne_zero fun hw => by simp [hw] at hk
    refine ⟨(k / w, k % w), ⟨Nat.div_lt_of_lt_mul ?_, Nat.mod_lt _ hw⟩, ?_, ?_⟩
    · rwa [Nat.mul_comm]
    all_goals
      have := Nat.div_add_mod' k w
      simp only [addr]
      omega
  · have hrow : i.1 * w + i.2 < h * w :=
      calc i.1 * w + i.2 < i.1 * w + w := by have := hi.2; omega
        _ = (i.1 + 1) * w := by ring
        _ ≤ h * w := Nat.mul_le_mul_right w hi.1
    have hmem : addr dst w i.1 i.2 ∈ bytes dst (h * w) := by
      rw [addr, Nat.add_assoc]
      exact add_mem_bytes hrow
    simpa using hmem

/-- Each byte of the rectangle is copied once, whichever way is taken. -/
theorem copyPlaneSteps_moves (dst src : ℕ) {w : ℕ} (h : ℕ) {ds ss : ℤ} (hd : w ≤ ds.toNat)
    (hs : w ≤ ss.toNat) :
    Moves (copyPlaneSteps dst ds src ss w h) (rectangle w h)
      (fun i => addr dst ds.toNat i.1 i.2) (fun i => addr src ss.toNat i.1 i.2) := by
  unfold copyPlaneSteps
  split
  · rename_i hempty
    refine ⟨by simp, fun i hi => ?_⟩
    have := hi.1
    have := hi.2
    omega
  rename_i hsome
  lift ds to ℕ using by omega
  lift ss to ℕ using by omega
  simp only [Int.toNat_natCast] at hd hs ⊢
  split
  · omega
  split
  · rename_i hblock
    obtain rfl : ds = w := by omega
    obtain rfl : ss = ds := by omega
    exact blockCopy_moves dst src ss h
  · exact rowCopies_moves hd

end AutoUpscale
