import JinyKernel.Buddy.Boot
import JinyKernel.PageCache.Model
import JinyKernel.Paging.Model
import Mathlib.Order.Interval.Set.Disjoint

-- Regions are sets of physical addresses.

namespace JinyKernel.Buddy

open List
open PageCache (fileCacheSize pageStructSize)
open Paging (PcRegion)

def longAlign (value : Nat) : Nat := (value + 7) / 8 * 8

def layBitmaps (startMem endMem i : Nat) : Nat -> Nat
  | 0 => startMem
  | left + 1 =>
    let block := pageSize * 2 ^ (i + 1)
    let endMem := (endMem + block - 1) / block * block
    let bitmapSize := (endMem - kaddrspaceStart) / (pageSize * 2 ^ i)
    layBitmaps (startMem + longAlign ((bitmapSize + 7) / 8)) endMem (i + 1) left

def memMap (startMem : Nat) : Nat := longAlign (startMem + 8)

variable (startMem endMem : Nat)

def freeAreaEnd : Nat :=
  layBitmaps (longAlign (memMap startMem + mapNr endMem * pageStructSize)) endMem 0 nrMemLists

def tables : Set Nat := Set.Ico (pa (memMap startMem)) (pa (freeAreaEnd startMem endMem))

def cacheArea (pc : PcRegion) : Set Nat :=
  Set.Ico pc.pcStartaddr pc.pcEndaddr ∪ Set.Ico (pc.pcStartaddr + fileCacheSize)
    (pc.pcStartaddr + fileCacheSize + pageStructSize * (pc.len / pageSize))

-- `init_mem` is called with `KADDRSPACE_START` as its last argument.
def released : Set Nat :=
  { addr | addr / pageSize ∈ (pageAddrs (pageAlign startMem) (pageMask endMem)).map mapNr ∧
    addr / pageSize ∈ (pageAddrs kaddrspaceStart (wrapSub (pageMask endMem) 0x2000)).map mapNr }

theorem layBitmaps_ge (startMem endMem i left : Nat) : startMem ≤ layBitmaps startMem endMem i left := by
  induction left generalizing startMem endMem i with
  | zero => exact Nat.le_refl _
  | succ left ih => exact (Nat.le_add_right _ _).trans (ih ..)

theorem memMap_le : startMem < memMap startMem ∧ memMap startMem ≤ freeAreaEnd startMem endMem := by
  have above := layBitmaps_ge (longAlign (memMap startMem + mapNr endMem * pageStructSize)) endMem 0 nrMemLists
  simp only [freeAreaEnd, memMap, longAlign] at *
  omega

theorem mem_pageAddrs_iff {low high frame : Nat} (aligned : pageSize ∣ low) (direct : kaddrspaceStart ≤ low)
    (fits : high ≤ kaddrspaceStart + frameLimit * pageSize) :
    frame ∈ (pageAddrs low high).map mapNr ↔
      low ≤ kaddrspaceStart + frame * pageSize ∧ kaddrspaceStart + frame * pageSize < high := by
  obtain ⟨first, rfl⟩ := aligned
  constructor
  · rintro member
    obtain ⟨addr, listed, rfl⟩ := mem_map.1 member
    have bounds := mem_pageAddrs listed
    rw [mapNr_direct (by omega) (by omega)]
    simp only [pageSize, kaddrspaceStart] at *
    omega
  intro bounds
  refine mem_map.2 ⟨kaddrspaceStart + frame * pageSize, mem_map.2
    ⟨(kaddrspaceStart + frame * pageSize - pageSize * first) / pageSize, mem_range.2 ?_, ?_⟩, ?_⟩
  · simp only [pageSize, kaddrspaceStart] at *
    omega
  · simp only [pageSize, kaddrspaceStart] at *
    omega
  · rw [mapNr_direct (by omega) (by omega)]
    simp [pageSize]

section

variable {startMem endMem : Nat}

theorem pa_direct {addr : Nat} (low : kaddrspaceStart ≤ addr) (high : addr ≤ kernelCodeStart) :
    pa addr = addr - kaddrspaceStart := by
  rw [pa, if_neg (Nat.not_lt.2 high), wrapSub_eq low]
  simp only [kernelCodeStart] at high
  omega

theorem released_eq (low : kaddrspaceStart ≤ startMem) (fits : startMem + pageSize ≤ kernelCodeStart)
    (lowEnd : kaddrspaceStart + 0x2000 ≤ pageMask endMem)
    (high : endMem ≤ kaddrspaceStart + frameLimit * pageSize) :
    released startMem endMem =
      Set.Ico (pageAlign startMem - kaddrspaceStart) (pageMask endMem - 0x2000 - kaddrspaceStart) := by
  have start : pageAlign startMem = (startMem + 4095) / 4096 * 4096 := by
    simp only [kernelCodeStart, pageSize] at fits
    simp only [pageAlign, pageMask, wrap, pageSize]
    omega
  have last : pageMask endMem ≤ endMem ∧ pageMask endMem % pageSize = 0 :=
    ⟨Nat.div_mul_le_self _ _, Nat.mul_mod_left _ _⟩
  have below : wrapSub (pageMask endMem) 0x2000 = pageMask endMem - 0x2000 := wrapSub_eq (by omega) (by
    simp only [kaddrspaceStart, frameLimit, pageSize] at high
    omega)
  ext addr
  rw [released, Set.mem_ofPred_eq, below, mem_pageAddrs_iff ⟨_, by rw [start, Nat.mul_comm]; rfl⟩
      (by simp only [kaddrspaceStart] at *; omega) (by omega),
    mem_pageAddrs_iff (by decide) (Nat.le_refl _) (by omega), Set.mem_Ico, start]
  simp only [kaddrspaceStart, pageSize] at *
  omega

end

theorem memory_regions_iff (startMem endMem len s : Nat) (returned : freeAreaEnd startMem endMem = s)
    (lowStart : kaddrspaceStart ≤ startMem) (lowEnd : kaddrspaceStart + 0x2000 ≤ pageMask endMem)
    (high : endMem ≤ kaddrspaceStart + frameLimit * pageSize) (fits : s + len + pageSize ≤ kernelCodeStart)
    (pages : pageSize ∣ len) :
    (tables startMem endMem ∩ cacheArea ⟨pa s, len⟩ = ∅ ∧ tables startMem endMem ∩ released (s + len) endMem = ∅ ∧
      cacheArea ⟨pa s, len⟩ ∩ released (s + len) endMem = ∅ ∧
      ∀ frame, PcRegion.isPcPaddr ⟨pa s, len⟩ (frame * pageSize) = PcRegion.frames ⟨pa s, len⟩ frame) ↔ len = 0 := by
  obtain ⟨above, below⟩ := memMap_le startMem endMem
  obtain ⟨n, rfl⟩ := pages
  simp only [← Set.disjoint_iff_inter_eq_empty]
  rw [tables, returned] at *
  clear returned
  -- Addresses are taken from the start of the direct map on.
  obtain ⟨table, atTable⟩ := Nat.exists_eq_add_of_le (lowStart.trans (Nat.le_of_lt above))
  rw [atTable] at below ⊢
  obtain ⟨place, rfl⟩ := Nat.exists_eq_add_of_le (Nat.le_of_add_right_le below)
  have low : kaddrspaceStart ≤ kaddrspaceStart + place + pageSize * n := Nat.le_add_right_of_le (Nat.le_add_right _ _)
  have free := released_eq low fits lowEnd high
  obtain ⟨top, atTop⟩ := Nat.exists_eq_add_of_le lowEnd
  have first : pageAlign (kaddrspaceStart + place + pageSize * n) =
      kaddrspaceStart + (place + pageSize * n + 4095) / 4096 * 4096 := by
    simp only [kernelCodeStart, kaddrspaceStart, pageSize] at fits
    simp only [pageAlign, pageMask, wrap, pageSize, kaddrspaceStart]
    omega
  have image : kaddrspaceStart + place ≤ kernelCodeStart := by omega
  have behind : kaddrspaceStart + 0x2000 + top - 0x2000 - kaddrspaceStart = top := by omega
  rw [free, cacheArea, PcRegion.pcEndaddr, PcRegion.pcStartaddr, pa_direct (Nat.le_add_right _ _) image,
    pa_direct (Nat.le_add_right _ _) (below.trans image), Nat.add_sub_cancel_left, Nat.add_sub_cancel_left,
    Nat.mul_div_cancel_left _ (by decide), Set.disjoint_union_right, Set.disjoint_union_left, first, atTop,
    Nat.add_sub_cancel_left, behind]
  simp only [Set.Ico_disjoint_Ico]
  clear free first behind fits atTop low lowEnd high lowStart above image
  generalize kaddrspaceStart = base at *
  simp only [pageSize, pageStructSize, fileCacheSize] at *
  have test (frame : Nat) :
      PcRegion.isPcPaddr ⟨place, 4096 * n⟩ (frame * 4096) = PcRegion.frames ⟨place, 4096 * n⟩ frame ↔
      ((place + 4096) / 4096 < frame ∧ frame ≤ (place + 4096) / 4096 + n ↔
        (place + 4096) / 4096 ≤ frame ∧ frame < (place + 4096) / 4096 + n) := by
    rw [Bool.eq_iff_iff, PcRegion.isPcPaddr, PcRegion.frames, decide_eq_true_iff, decide_eq_true_iff,
      PcRegion.pcEndaddr, PcRegion.pcStartaddr]
    simp only [pageSize]
    omega
  simp only [test]
  constructor
  · rintro ⟨-, -, -, exactly⟩
    -- the first frame of the cache passes the test only when there is none
    have start := exactly ((place + 4096) / 4096)
    omega
  · intro zero
    exact ⟨⟨by omega, by omega⟩, by omega, ⟨by omega, by omega⟩, fun frame => by omega⟩

theorem memory_regions_no_cache :
    tables (kaddrspaceStart + 0x800000) (kaddrspaceStart + 0xfffe000) ∩
      released (kaddrspaceStart + 0x1903de0) (kaddrspaceStart + 0xfffe000) = ∅ := by
  have returned : freeAreaEnd (kaddrspaceStart + 0x800000) (kaddrspaceStart + 0xfffe000) =
      kaddrspaceStart + 0x1903de0 := by
    decide +kernel
  exact ((memory_regions_iff _ _ 0 _ returned (by decide) (by decide) (by decide) (by decide) (by decide)).2 rfl).2.1

theorem cache_end_released :
    freeAreaEnd (kaddrspaceStart + 0x800220) (kaddrspaceStart + 0xfffe000) = kaddrspaceStart + 0x1904000 ∧
      (cacheArea ⟨0x1904000, 0x4000000⟩ ∩ released (kaddrspaceStart + 0x5904000) (kaddrspaceStart + 0xfffe000)).Nonempty ∧
      ∃ frame, PcRegion.isPcPaddr ⟨0x1904000, 0x4000000⟩ (frame * pageSize) ≠
        PcRegion.frames ⟨0x1904000, 0x4000000⟩ frame := by
  rw [released_eq (by decide) (by decide) (by decide) (by decide)]
  exact ⟨by decide +kernel, ⟨0x5904000, .inl (by decide), by decide⟩, 0x1905, by decide⟩

def bitmapAt (order : Nat) : Nat :=
  layBitmaps (longAlign (memMap startMem + mapNr endMem * pageStructSize)) endMem 0 order

def freeAreas : List (Set Nat) :=
  Set.Ico (memMap startMem) (memMap startMem + mapNr endMem * pageStructSize) ::
    (range nrMemLists).map fun order => Set.Ico (bitmapAt startMem endMem order) (bitmapAt startMem endMem (order + 1))

theorem le_rounded (value order : Nat) :
    value ≤ (value + pageSize * 2 ^ order - 1) / (pageSize * 2 ^ order) * (pageSize * 2 ^ order) := by
  have whole := Nat.div_add_mod' (value + pageSize * 2 ^ order - 1) (pageSize * 2 ^ order)
  have rest := Nat.mod_lt (value + pageSize * 2 ^ order - 1) (Nat.mul_pos (by decide : 0 < pageSize)
    (Nat.two_pow_pos order))
  omega

theorem layBitmaps_succ (i left : Nat) : ∃ last ≥ endMem, pageSize * 2 ^ (i + left + 1) ∣ last ∧
    layBitmaps startMem endMem i (left + 1) = layBitmaps startMem endMem i left +
      longAlign (((last - kaddrspaceStart) / (pageSize * 2 ^ (i + left)) + 7) / 8) := by
  have rounded := le_rounded endMem (i + 1)
  induction left generalizing startMem endMem i with
  | zero => exact ⟨_, rounded, Nat.dvd_mul_left _ _, rfl⟩
  | succ left ih =>
    rw [layBitmaps, layBitmaps]
    obtain ⟨last, later, blocks, laid⟩ := ih _ _ (i + 1) (le_rounded _ (i + 1 + 1))
    rw [show i + 1 + left = i + (left + 1) by omega] at blocks laid
    exact ⟨last, rounded.trans later, blocks, laid⟩

theorem bitmapAt_succ (order : Nat) : ∃ last ≥ endMem, pageSize * 2 ^ (order + 1) ∣ last ∧
    bitmapAt startMem endMem (order + 1) = bitmapAt startMem endMem order +
      longAlign (((last - kaddrspaceStart) / (pageSize * 2 ^ order) + 7) / 8) := by
  simpa only [Nat.zero_add, bitmapAt] using layBitmaps_succ _ endMem 0 order

theorem bitmapAt_mono : Monotone (bitmapAt startMem endMem) := by
  refine monotone_nat_of_le_succ fun order => ?_
  obtain ⟨last, -, -, laid⟩ := bitmapAt_succ startMem endMem order
  rw [laid]
  exact Nat.le_add_right _ _

theorem bitmap_holds {order frame : Nat} (small : order < nrMemLists) (low : kaddrspaceStart ≤ endMem)
    (high : endMem < kaddrspaceStart + frameLimit * pageSize) (below : frame < mapNr endMem) :
    frame >>> (1 + order) < 8 * (bitmapAt startMem endMem (order + 1) - bitmapAt startMem endMem order) := by
  obtain ⟨last, later, blocks, laid⟩ := bitmapAt_succ startMem endMem order
  have start : pageSize * 2 ^ (order + 1) ∣ kaddrspaceStart :=
    (Nat.mul_dvd_mul_left _ (Nat.pow_dvd_pow 2 (Nat.succ_le_of_lt small))).trans (by decide)
  obtain ⟨q, size⟩ := Nat.dvd_sub blocks start
  rw [mapNr_direct low high] at below
  have inside : frame < 2 ^ (1 + order) * q := by
    refine below.trans_le ((Nat.div_le_div_right (Nat.sub_le_sub_right later _)).trans (Nat.le_of_eq ?_))
    rw [size, Nat.mul_assoc, Nat.mul_div_cancel_left _ (by decide), Nat.add_comm]
  have bits : (last - kaddrspaceStart) / (pageSize * 2 ^ order) = 2 * q := by
    rw [size, Nat.pow_succ, ← Nat.mul_assoc, Nat.mul_assoc, Nat.mul_div_cancel_left _]
    exact Nat.mul_pos (by decide) (Nat.two_pow_pos order)
  rw [laid, Nat.add_sub_cancel_left, Nat.shiftRight_eq_div_pow, bits, longAlign]
  have index := Nat.div_lt_of_lt_mul inside
  omega

-- Where every order divides the end, rounding up stays below it.
theorem layBitmaps_le (startMem endMem i left : Nat) (orders : i + left ≤ nrMemLists)
    (high : endMem ≤ kaddrspaceStart + frameLimit * pageSize) :
    layBitmaps startMem endMem i left ≤ startMem + left * 2 ^ 29 := by
  induction left generalizing startMem endMem i with
  | zero => exact Nat.le_add_right _ _
  | succ left ih =>
    obtain ⟨blocks, whole⟩ : pageSize * 2 ^ (i + 1) ∣ kaddrspaceStart + frameLimit * pageSize :=
      (Nat.mul_dvd_mul_left _ (Nat.pow_dvd_pow 2 (by omega : i + 1 ≤ nrMemLists))).trans (by decide)
    have rounded : (endMem + pageSize * 2 ^ (i + 1) - 1) / (pageSize * 2 ^ (i + 1)) * (pageSize * 2 ^ (i + 1)) ≤
        kaddrspaceStart + frameLimit * pageSize := by
      have positive : 0 < pageSize * 2 ^ (i + 1) := Nat.mul_pos (by decide) (Nat.two_pow_pos _)
      rw [whole] at high ⊢
      rw [Nat.mul_comm _ blocks]
      refine Nat.mul_le_mul_right _ (Nat.le_of_lt_succ (Nat.div_lt_of_lt_mul ?_))
      rw [Nat.mul_succ]
      omega
    have bits : ((endMem + pageSize * 2 ^ (i + 1) - 1) / (pageSize * 2 ^ (i + 1)) * (pageSize * 2 ^ (i + 1)) -
        kaddrspaceStart) / (pageSize * 2 ^ i) ≤ frameLimit := by
      refine (Nat.div_le_div_left (Nat.le_mul_of_pos_right _ (Nat.two_pow_pos i)) (by decide)).trans ?_
      exact Nat.div_le_of_le_mul ((Nat.sub_le_iff_le_add'.2 rounded).trans (Nat.mul_comm _ _).le)
    rw [layBitmaps]
    refine (ih _ _ (i + 1) (by omega) rounded).trans ?_
    simp only [longAlign, frameLimit] at *
    omega

theorem bitmaps_hold (low : kaddrspaceStart ≤ endMem) (high : endMem < kaddrspaceStart + frameLimit * pageSize) :
    (∀ order < nrMemLists, ∀ frame < mapNr endMem, frame >>> (1 + order) <
        8 * (bitmapAt startMem endMem (order + 1) - bitmapAt startMem endMem order)) ∧
      (freeAreas startMem endMem).Pairwise (fun a b => a ∩ b = ∅) ∧
      (∀ area ∈ freeAreas startMem endMem, ∀ addr ∈ area, addr < freeAreaEnd startMem endMem) ∧
      (startMem ≤ endMem -> freeAreaEnd startMem endMem < 2 ^ 64) := by
  have mono := bitmapAt_mono startMem endMem
  have table : memMap startMem + mapNr endMem * pageStructSize ≤ bitmapAt startMem endMem 0 := by
    simp only [bitmapAt, layBitmaps, longAlign]
    omega
  refine ⟨fun order small frame => bitmap_holds _ _ small low high, ?_, ?_, fun start => ?_⟩
  · refine List.pairwise_cons.2 ⟨fun area among => ?_, pairwise_map.2 (pairwise_lt_range.imp fun {a b} before => ?_)⟩
    · obtain ⟨order, -, rfl⟩ := mem_map.1 among
      have first := table.trans (mono (Nat.zero_le order))
      exact Set.disjoint_iff_inter_eq_empty.1 (Set.Ico_disjoint_Ico.2 (by omega))
    · have first : bitmapAt startMem endMem (a + 1) ≤ bitmapAt startMem endMem b := mono before
      exact Set.disjoint_iff_inter_eq_empty.1 (Set.Ico_disjoint_Ico.2 (by omega))
  · intro area among addr inside
    rcases mem_cons.1 among with rfl | behind
    · exact (inside.2.trans_le table).trans_le (mono (Nat.zero_le nrMemLists))
    · obtain ⟨order, small, rfl⟩ := mem_map.1 behind
      exact inside.2.trans_le (mono (mem_range.1 small))
  · have frames : mapNr endMem ≤ frameLimit := by
      rw [mapNr_direct low high]
      simp only [pageSize] at *
      omega
    have laid := layBitmaps_le (longAlign (memMap startMem + mapNr endMem * pageStructSize)) endMem 0 nrMemLists
      le_rfl high.le
    simp only [freeAreaEnd, memMap, longAlign, nrMemLists, pageStructSize, frameLimit, kaddrspaceStart, pageSize] at *
    omega

theorem bitmaps_hold_256M : ∃ area ∈ freeAreas (kaddrspaceStart + 0x800000) (kaddrspaceStart + 0xfffe000), area.Nonempty ∧
    ∀ addr ∈ area, addr < freeAreaEnd (kaddrspaceStart + 0x800000) (kaddrspaceStart + 0xfffe000) :=
  ⟨_, mem_cons_self, ⟨memMap (kaddrspaceStart + 0x800000), by decide⟩,
    (bitmaps_hold _ _ (by decide) (by decide)).2.2.1 _ mem_cons_self⟩

end JinyKernel.Buddy
