import JinyKernel.Shared.Run
import Mathlib.Data.List.Basic

-- `balloon_pages` (drivers/virtio/virtio_memballoon.cc) with `MEMBALLOON_2M_PAGE_SIZE`.

namespace JinyKernel.Balloon

open List Run

def maxTableSize : Nat := 2000

def balloonInflate : Nat := 1

-- `pagesTable` is below `current_index`, the last one first; `taken` is what the buddy allocator has given
-- out.
structure BalloonData where
  pagesTable : List Nat
  totalPages : Nat
  taken : List Nat

def sendToMemballoon : Nat := 512

def inflateLoop (d : BalloonData) (pages : Int) : List Nat -> Nat × BalloonData
  | [] => (0, d)
  | v :: grants =>
    if pages ≤ 0 ∨ maxTableSize ≤ d.pagesTable.length ∨ v = 0 then (0, d)
    else
      let out := inflateLoop { d with pagesTable := v :: d.pagesTable, taken := v :: d.taken } (pages - 512) grants
      (out.1 + sendToMemballoon, out.2)

def deflateLoop (d : BalloonData) (pages : Int) : List Nat -> Nat × BalloonData
  | [] => (0, { d with pagesTable := [] })
  | v :: table =>
    if pages ≤ 0 ∨ d.totalPages = 0 then (0, { d with pagesTable := v :: table })
    else if v = 0 then (0, { d with pagesTable := table })
    else
      let out := deflateLoop { d with taken := d.taken.erase v } (pages - 1) table
      (out.1 + sendToMemballoon, out.2)

def balloonPages (d : BalloonData) (pages : Int) (type : Nat) (grants : List Nat) : Nat × BalloonData :=
  if pages ≤ 512 then (0, d)
  else if type = balloonInflate then
    let out := inflateLoop d pages grants
    (out.1, { out.2 with totalPages := out.2.totalPages + out.1 })
  else
    let out := deflateLoop d pages d.pagesTable
    (out.1, { out.2 with totalPages := out.2.totalPages - out.1 })

structure Kept (d : BalloonData) : Prop where
  total : d.totalPages = 512 * d.pagesTable.length
  exactly : d.taken = d.pagesTable
  blocks : 0 ∉ d.pagesTable

-- At most `⌈pages / 512⌉` blocks move, and all are given back if there are fewer.
def OnTarget (d next : BalloonData) (pages : Int) (type : Nat) : Prop :=
  if type = balloonInflate then 512 * (next.pagesTable.length : Int) < 512 * d.pagesTable.length + pages + 512
  else 512 * (d.pagesTable.length : Int) < 512 * next.pagesTable.length + pages + 512 ∧
    (512 * (d.pagesTable.length : Int) < pages + 512 -> next.pagesTable = [])

variable {d : BalloonData} {pages : Int} {type : Nat} {grants : List Nat}

theorem inflateLoop_spec (d : BalloonData) (pages : Int) (grants : List Nat) :
    ∃ blocks, inflateLoop d pages grants =
      (512 * blocks.length, { d with pagesTable := blocks ++ d.pagesTable, taken := blocks ++ d.taken }) ∧
      0 ∉ blocks ∧ (blocks = [] ∨ 512 * (blocks.length : Int) < pages + 512) := by
  induction grants generalizing d pages with
  | nil => exact ⟨[], rfl, by simp, .inl rfl⟩
  | cons v grants ih =>
    rw [inflateLoop]
    split_ifs with stops
    · exact ⟨[], rfl, by simp, .inl rfl⟩
    obtain ⟨blocks, ran, nonzero, few⟩ :=
      ih { d with pagesTable := v :: d.pagesTable, taken := v :: d.taken } (pages - 512)
    refine ⟨blocks ++ [v], ?_, ?_, .inr ?_⟩
    · simp [ran, sendToMemballoon, Nat.mul_add]
    · simpa [nonzero, Eq.comm] using fun zero => stops (.inr (.inr zero))
    · rcases few with rfl | few <;> simp <;> omega

theorem deflateLoop_spec (d : BalloonData) {table : List Nat} (exactly : d.taken = table) (blocks : 0 ∉ table)
    (pages : Nat) (left : d.totalPages ≠ 0 ∨ table = []) : deflateLoop d pages table =
      (512 * min pages table.length, { d with pagesTable := table.drop pages, taken := table.drop pages }) := by
  induction table generalizing d pages with
  | nil => simp [deflateLoop, exactly]
  | cons v table ih =>
    rw [mem_cons, not_or] at blocks
    cases pages with
    | zero => simp [deflateLoop, exactly]
    | succ pages =>
      have goes : ¬ (((pages + 1 : Nat) : Int) ≤ 0 ∨ d.totalPages = 0) := by simpa using left
      have fewer : ((pages + 1 : Nat) : Int) - 1 = pages := by omega
      rw [deflateLoop, if_neg goes, if_neg (Ne.symm blocks.1), fewer, ih _ (by simp [exactly]) blocks.2 _
        (.inl (by simpa using left))]
      simp [sendToMemballoon, Nat.add_min_add_right, Nat.mul_add]

theorem balloonPages_deflate (kept : Kept d) (large : 512 < pages) (deflate : type ≠ balloonInflate) :
    (balloonPages d pages type grants).2 = {
      pagesTable := d.pagesTable.drop pages.toNat, taken := d.pagesTable.drop pages.toNat
      totalPages := d.totalPages - 512 * min pages.toNat d.pagesTable.length } := by
  have left : d.totalPages ≠ 0 ∨ d.pagesTable = [] := by
    rw [kept.total, ← length_eq_zero_iff]
    omega
  have ran := deflateLoop_spec d kept.exactly kept.blocks pages.toNat left
  rw [Int.toNat_of_nonneg (by omega)] at ran
  rw [balloonPages, if_neg (by omega), if_neg deflate, ran]

theorem Kept.call (kept : Kept d) (pages : Int) (type : Nat) (grants : List Nat) :
    Kept (balloonPages d pages type grants).2 := by
  by_cases small : pages ≤ 512
  · rwa [balloonPages, if_pos small]
  by_cases inflate : type = balloonInflate
  · obtain ⟨blocks, ran, nonzero, -⟩ := inflateLoop_spec d pages grants
    rw [balloonPages, if_neg small, if_pos inflate, ran]
    exact ⟨by simp [kept.total]; omega, by simp [kept.exactly], by simp [nonzero, kept.blocks]⟩
  rw [balloonPages_deflate kept (by omega) inflate]
  refine ⟨?_, rfl, fun zero => kept.blocks (mem_of_mem_drop zero)⟩
  simp only [kept.total, length_drop]
  omega

structure Call where
  pages : Int
  type : Nat
  grants : List Nat

def balloonStep (d : BalloonData) (call : Call) : Option BalloonData :=
  some (balloonPages d call.pages call.type call.grants).2

def Start (d : BalloonData) : Prop := d = ⟨[], 0, []⟩

theorem balloon_on_target_iff (reached : Reachable Start balloonStep (fun _ _ => True) d) (large : 512 < pages) :
    Kept d ∧ (OnTarget d (balloonPages d pages type grants).2 pages type ↔
      type = balloonInflate ∨ 512 * (d.pagesTable.length : Int) < pages + 512) := by
  have kept : Kept d := reached.invariant
    (fun _ start => by cases start; exact ⟨rfl, rfl, by simp⟩)
    (fun _ call _ kept _ ran => by cases ran; exact kept.call call.pages call.type call.grants)
  refine ⟨kept, ?_⟩
  by_cases inflate : type = balloonInflate
  · obtain ⟨blocks, ran, -, few⟩ := inflateLoop_spec d pages grants
    rw [OnTarget, if_pos inflate, balloonPages, if_neg (by omega), if_pos inflate, ran]
    rcases few with rfl | few <;> simp [inflate] <;> omega
  -- The loop counts every block of 512 pages as one page.
  rw [OnTarget, if_neg inflate, balloonPages_deflate kept large inflate]
  simp only [inflate, length_drop, drop_eq_nil_iff, false_or]
  omega

def three : BalloonData := ⟨[3, 2, 1], 1536, [3, 2, 1]⟩

theorem three_reached : Reachable Start balloonStep (fun _ _ => True) three := by
  have taken : balloonStep ⟨[], 0, []⟩ ⟨1536, balloonInflate, [1, 2, 3]⟩ = some three := rfl
  exact .next (.start rfl) trivial taken

theorem balloon_on_target_three : 512 < 1025 ∧ OnTarget three (balloonPages three 1025 0 []).2 1025 0 :=
  ⟨by decide, (balloon_on_target_iff three_reached (by decide)).2.mpr (.inr (by decide))⟩

theorem balloon_deflates_past : Reachable Start balloonStep (fun _ _ => True) three ∧
    (balloonPages three 513 0 []).2.pagesTable = [] ∧ ¬ OnTarget three (balloonPages three 513 0 []).2 513 0 :=
  ⟨three_reached, rfl, fun target => absurd target.1 (by decide)⟩

end JinyKernel.Balloon
