import JinyKernel.Slab.Model

namespace JinyKernel.Slab

open List

def slot (objSize frame k : Nat) : Nat := address frame + headerSize + k * objSize

def capacity (objSize : Nat) : Nat := (pageSize - headerSize) / objSize

theorem findFirstZeroBit_le {bits : Nat -> Bool} {k : Nat} (below : k < bitmapBits) (clear : bits k = false) :
    findFirstZeroBit bits bitmapBits ≤ k ∧ bits (findFirstZeroBit bits bitmapBits) = false := by
  change ((List.range 64).find? fun i => !bits i).getD 64 ≤ k ∧
    bits (((List.range 64).find? fun i => !bits i).getD 64) = false
  cases found : (List.range 64).find? fun i => !bits i with
  | none =>
    rw [find?_eq_none] at found
    have set := found k (mem_range.2 below)
    simp [clear] at set
  | some i =>
    obtain ⟨zero, -, before⟩ := find?_range_eq_some.1 found
    refine ⟨Nat.le_of_not_lt fun earlier => ?_, by simpa using zero⟩
    have set := before k earlier
    simp [clear] at set

theorem findFirstZeroBit_clear {bits : Nat -> Bool} (found : findFirstZeroBit bits bitmapBits < bitmapBits) :
    bits (findFirstZeroBit bits bitmapBits) = false := by
  by_cases clear : ∃ k < bitmapBits, bits k = false
  · obtain ⟨k, below, zero⟩ := clear
    exact (findFirstZeroBit_le below zero).2
  -- With every bit set the search returns the number of bits it looked at.
  have fails : (List.range 64).find? (fun i => !bits i) = none := by
    rw [find?_eq_none]
    intro k inside
    simpa using fun zero => clear ⟨k, mem_range.1 inside, zero⟩
  have all : findFirstZeroBit bits bitmapBits = 64 := by
    change ((List.range 64).find? fun i => !bits i).getD 64 = 64
    rw [fails, Option.getD_none]
  rw [all] at found
  exact absurd found (by decide)

theorem emptyBitmap_iff (bits : Nat -> Bool) : emptyBitmap bits = true ↔ ∀ k < bitmapBits, bits k = false := by
  simp [emptyBitmap]

variable {objSize frame other k j : Nat}

theorem slot_end_le (inside : k < capacity objSize) : headerSize + k * objSize + objSize ≤ pageSize := by
  have positive : 0 < objSize := by
    rcases Nat.eq_zero_or_pos objSize with zero | positive
    · simp [capacity, zero] at inside
    · exact positive
  have fits := (Nat.le_div_iff_mul_le positive).1 (Nat.succ_le_of_lt inside)
  rw [Nat.succ_mul] at fits
  omega

section

variable (below : frame < frameLimit)

include below

theorem pageMask_slot (positive : 0 < objSize) (inside : k < capacity objSize) :
    pageMask (slot objSize frame k) = address frame := by
  have fits := slot_end_le inside
  simp only [slot, pageMask, address_eq below, kaddrspaceStart, headerSize, pageSize] at *
  omega

theorem mapNr_slot (positive : 0 < objSize) (inside : k < capacity objSize) :
    mapNr (pageMask (slot objSize frame k)) = frame := by
  rw [pageMask_slot below positive inside, mapNr_address below]

theorem slots_apart (below' : other < frameLimit) (inside : k < capacity objSize) (inside' : j < capacity objSize)
    (different : ¬ (frame = other ∧ k = j)) :
    slot objSize frame k + objSize ≤ slot objSize other j ∨ slot objSize other j + objSize ≤ slot objSize frame k := by
  have fits := slot_end_le inside
  have fits' := slot_end_le inside'
  simp only [slot, address_eq below, address_eq below']
  by_cases same : frame = other
  · subst same
    rcases Nat.lt_or_gt_of_ne fun equal => different ⟨rfl, equal⟩ with before | after
    · have step := Nat.mul_le_mul_right objSize (Nat.succ_le_of_lt before)
      rw [Nat.succ_mul] at step
      omega
    · have step := Nat.mul_le_mul_right objSize (Nat.succ_le_of_lt after)
      rw [Nat.succ_mul] at step
      omega
  · simp only [pageSize, headerSize] at *
    omega

theorem slot_injective (below' : other < frameLimit) (positive : 0 < objSize) (inside : k < capacity objSize)
    (inside' : j < capacity objSize) (same : slot objSize frame k = slot objSize other j) : frame = other ∧ k = j := by
  by_contra different
  have apart := slots_apart below below' inside inside' different
  omega

end

theorem objIndex_slot {s : Slabs} (size : s.cache.objSize = objSize) (below : frame < frameLimit)
    (positive : 0 < objSize) (inside : k < capacity objSize) : objIndex s (slot objSize frame k) = k := by
  have fits := slot_end_le inside
  have offset : slot objSize frame k - address frame = headerSize + k * objSize := by
    rw [slot]
    omega
  have body : wrapSub (headerSize + k * objSize) headerSize = k * objSize := by
    simp only [wrapSub, headerSize, pageSize] at *
    omega
  have small : k < pageSize := by
    have grows := Nat.le_mul_of_pos_right k positive
    omega
  rw [objIndex, pageMask_slot below positive inside, offset, body, size, Nat.mul_div_cancel k positive]
  simp only [pageSize] at small
  apply toInt_eq <;> omega

end JinyKernel.Slab
