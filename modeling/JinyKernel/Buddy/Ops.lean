import JinyKernel.Buddy.Areas

namespace JinyKernel.Buddy

open Dyadic Function List

def Page.Ordinary (page : Page) : Prop :=
  page.reserved = false ∧ page.swapCache = false ∧ page.dma = true ∧ page.netBuf = false ∧ page.optionData = 0

structure MemInv (region : Nat -> Prop) (mem : Mem) (held : List Block) : Prop where
  areas : AreasInv region mem.area held
  nrFree : mem.nrFreePages = listedPages mem.area
  limit : mem.maxMapNr < frameLimit
  backed : mem.maxMapNr * pageSize ≤ mem.phyMemSize
  below : ∀ frame, region frame -> frame < mem.maxMapNr
  ordinary : ∀ frame, region frame -> (mem.page frame).Ordinary
  referenced : ∀ frame, region frame -> ((mem.page frame).referenced = true ↔ ∃ b ∈ held, b.Holds frame)
  counted : ∀ b ∈ held, (mem.page b.start).count = 1

variable {areas : Areas}

theorem listedPages_le {region : Nat -> Prop} {held : List Block} (inv : AreasInv region areas held) {limit : Nat}
    (below : ∀ frame, region frame -> frame < limit) : listedPages areas ≤ limit := by
  apply sum_size_le _ (pairwise_append.1 inv.tiling.apart).1
  intro b member frame inside
  exact below frame (inv.tiling.within (mem_append_left _ member) frame inside)

def markBlock (pages : Pages) (b : Block) (count : Int) (referenced : Bool) : Pages := fun frame =>
  let page := setPage pages b.start { pages b.start with count := count } frame
  if b.Holds frame then { page with referenced := referenced } else page

section

variable (pages : Pages) (b : Block) (count : Int) (referenced : Bool)

theorem markBlock_outside {frame : Nat} (outside : ¬ b.Holds frame) :
    markBlock pages b count referenced frame = pages frame := by
  have different : frame ≠ b.start := fun same => outside (same ▸ b.holds_start)
  simp [markBlock, outside, setPage, different]

theorem markBlock_referenced {frame : Nat} (inside : b.Holds frame) :
    (markBlock pages b count referenced frame).referenced = referenced := by
  simp [markBlock, inside]

theorem markBlock_count : (markBlock pages b count referenced b.start).count = count := by
  simp [markBlock, b.holds_start, setPage]

theorem markBlock_ordinary {frame : Nat} (ordinary : (pages frame).Ordinary) :
    (markBlock pages b count referenced frame).Ordinary := by
  simp only [markBlock, setPage]
  by_cases here : frame = b.start
  · subst here
    simpa [b.holds_start, Page.Ordinary] using ordinary
  · rw [update_of_ne here]
    split_ifs <;> exact ordinary

end

def Mem.released (mem : Mem) (b : Block) (areas : Areas) : Mem :=
  { mem with
    page := markBlock mem.page b 0 false
    area := areas
    nrFreePages := listedPages areas
    statFrees := mem.statFrees + 1 }

def Mem.claimed (mem : Mem) (b : Block) (areas : Areas) : Mem :=
  { mem with
    page := markBlock mem.page b 1 true
    area := areas
    nrFreePages := listedPages areas
    statAllocs := mem.statAllocs + 1 }

theorem flipReferenced_spec (seen : Bool) (count : Nat) (pages : Pages) (frame : Nat)
    (all : ∀ other, frame ≤ other -> other < frame + count -> (pages other).referenced = seen) :
    flipReferenced seen pages frame count = some fun other =>
      if frame ≤ other ∧ other < frame + count then { pages other with referenced := !seen } else pages other := by
  induction count generalizing pages frame with
  | zero =>
    have never (other : Nat) : ¬ (frame ≤ other ∧ other < frame + 0) := by omega
    simp only [flipReferenced, never, if_false]
  | succ count ih =>
    rw [flipReferenced, if_pos (all frame (by omega) (by omega)), ih]
    · congr 1
      funext other
      by_cases here : other = frame
      · subst here
        simp [setPage]
      · by_cases inside : frame ≤ other ∧ other < frame + (count + 1)
        · rw [if_pos inside, if_pos (by omega), setPage, update_of_ne here]
        · rw [if_neg inside, if_neg (by omega), setPage, update_of_ne here]
    · intro other low high
      rw [setPage, update_of_ne (by omega)]
      exact all other (by omega) (by omega)

theorem flipReferenced_block (seen : Bool) (pages : Pages) (b : Block) (count : Int)
    (all : ∀ frame, b.Holds frame -> (pages frame).referenced = seen) :
    flipReferenced seen (setPage pages b.start { pages b.start with count := count }) b.start (2 ^ b.order) =
      some (markBlock pages b count (!seen)) := by
  apply flipReferenced_spec
  intro frame low high
  rw [← all frame ⟨low, high⟩, setPage]
  by_cases here : frame = b.start
  · subst here
    simp
  · rw [update_of_ne here]

variable {region : Nat -> Prop} {mem : Mem} {held : List Block} {b : Block}

theorem MemInv.held_region (inv : MemInv region mem (b :: held)) {frame : Nat} (inside : b.Holds frame) :
    region frame :=
  inv.areas.tiling.within (by simp) frame inside

theorem MemInv.held_below (inv : MemInv region mem (b :: held)) : b.start < mem.maxMapNr :=
  inv.below _ (inv.held_region b.holds_start)

theorem MemInv.perm {held' : List Block} (inv : MemInv region mem held) (same : held.Perm held') :
    MemInv region mem held' where
  areas := System.congr inv.areas (List.Perm.refl _) same fun _ _ _ => rfl
  __ := inv
  referenced frame inRegion := by simp [inv.referenced frame inRegion, same.mem_iff]
  counted b member := inv.counted b (same.mem_iff.2 member)

-- The counter is an `int`, and counts frames below `maxMapNr`.
theorem MemInv.toInt_listed (inv : MemInv region mem held) {held' : List Block} (after : AreasInv region areas held')
    {total : Int} (exact : total = listedPages areas) : toInt total = listedPages areas := by
  have bound := listedPages_le after inv.below
  have limit := inv.limit
  simp only [frameLimit] at limit
  rw [exact, toInt_eq] <;> omega

theorem MemInv.release (inv : MemInv region mem (b :: held)) (after : AreasInv region areas held) :
    MemInv region (mem.released b areas) held := by
  have apart (c : Block) (member : c ∈ held) : b.Apart c :=
    inv.areas.held_first.head_apart (mem_append_right _ member)
  refine ⟨after, rfl, inv.limit, inv.backed, inv.below, ?_, ?_, ?_⟩
  · intro frame inRegion
    exact markBlock_ordinary _ _ _ _ (inv.ordinary frame inRegion)
  · intro frame inRegion
    by_cases inside : b.Holds frame
    · have unheld : ¬ ∃ c ∈ held, c.Holds frame := by
        rintro ⟨c, member, holds⟩
        exact (apart c member).not_holds inside holds
      simp [Mem.released, markBlock_referenced _ _ _ _ inside, unheld]
    · simp [Mem.released, markBlock_outside _ _ _ _ inside, inv.referenced frame inRegion, inside]
  · intro c member
    have outside : ¬ b.Holds c.start := fun inside => (apart c member).not_holds inside c.holds_start
    simpa only [Mem.released, markBlock_outside _ _ _ _ outside] using inv.counted c (mem_cons_of_mem b member)

theorem MemInv.claim (inv : MemInv region mem held) (after : AreasInv region areas (b :: held)) :
    MemInv region (mem.claimed b areas) (b :: held) := by
  refine ⟨after, rfl, inv.limit, inv.backed, inv.below, ?_, ?_, ?_⟩
  · intro frame inRegion
    exact markBlock_ordinary _ _ _ _ (inv.ordinary frame inRegion)
  · intro frame inRegion
    by_cases inside : b.Holds frame
    · simp [Mem.claimed, markBlock_referenced _ _ _ _ inside, inside]
    · simp [Mem.claimed, markBlock_outside _ _ _ _ inside, inv.referenced frame inRegion, inside]
  intro c member
  rcases mem_cons.1 member with rfl | inHeld
  · exact markBlock_count _ _ _ _
  · have apart := after.held_first.head_apart (mem_append_right _ inHeld)
    have outside : ¬ b.Holds c.start := fun inside => apart.not_holds inside c.holds_start
    simpa only [Mem.claimed, markBlock_outside _ _ _ _ outside] using inv.counted c inHeld

theorem putFreePages_spec (inv : MemInv region mem (b :: held)) (addr : Nat) (here : mapNr addr = b.start) :
    ∃ areas, AreasInv region areas held ∧ putFreePages mem addr b.order = some (mem.released b areas) := by
  have height : b.order < nrMemLists := by
    have := inv.areas.held_bounded
    simp only [nrMemLists] at *
    omega
  have one := inv.counted b (by simp)
  obtain ⟨notReserved, notSwap, -, notNet, noData⟩ := inv.ordinary _ (inv.held_region b.holds_start)
  obtain ⟨areas, merged, after, grown⟩ := coalesce_spec (nrMemLists - 1 - b.order) mem.area b inv.areas
    (by simp only [nrMemLists] at *; omega)
  have aligned : b.start / 2 ^ b.order * 2 ^ b.order = b.start := Nat.div_mul_cancel inv.areas.held_aligned
  have pair : b.start / 2 ^ (1 + b.order) = b.pair := by rw [Nat.add_comm]; rfl
  have total : toInt (mem.nrFreePages + 2 ^ b.order) = listedPages areas := by
    apply inv.toInt_listed after
    rw [inv.nrFree, grown]
    rfl
  have flipped := flipReferenced_block true mem.page b 0 fun frame inside =>
    (inv.referenced frame (inv.held_region inside)).2 ⟨b, by simp, inside⟩
  simp only [notReserved, notSwap, notNet, noData] at flipped
  refine ⟨areas, after, ?_⟩
  simp [putFreePages, freePagesOk, here, aligned, pair, merged, inv.held_below, notReserved, notNet,
    noData, one, notSwap, height, flipped, total, guard, Mem.released]

theorem findFree_spec (pages : Pages) (areas : Areas) (left newOrder : Nat) {order frame : Nat}
    (found : findFree pages areas newOrder left = some (order, frame)) :
    newOrder ≤ order ∧ order < newOrder + left ∧ frame ∈ (areas order).queue := by
  induction left generalizing newOrder with
  | zero => simp [findFree] at found
  | succ left ih =>
    rw [findFree] at found
    split at found
    next entry first =>
      cases found
      exact ⟨le_rfl, by omega, mem_of_find?_eq_some first⟩
    obtain ⟨low, high, queued⟩ := ih (newOrder + 1) found
    exact ⟨by omega, by omega, queued⟩

theorem findFree_none (pages : Pages) (areas : Areas) (left newOrder : Nat)
    (missing : findFree pages areas newOrder left = none) {order frame : Nat} (low : newOrder ≤ order)
    (high : order < newOrder + left) (queued : frame ∈ (areas order).queue) : (pages frame).dma = false := by
  induction left generalizing newOrder with
  | zero => omega
  | succ left ih =>
    rw [findFree] at missing
    split at missing
    next => cases missing
    next absent =>
      -- the other lists are searched by the turns that follow
      by_cases here : order = newOrder
      · subst here
        simpa using find?_eq_none.1 absent frame queued
      · exact ih (newOrder + 1) missing (by omega) (by omega)

theorem takeBlock_spec (inv : MemInv region mem held) {order newOrder entry : Nat} (low : order ≤ newOrder)
    (high : newOrder < nrMemLists) (queued : entry ∈ (mem.area newOrder).queue) :
    ∃ (b : Block) (areas : Areas), b.order = order ∧ AreasInv region areas (b :: held) ∧
      takeBlock mem order newOrder entry = some (address b.start, mem.claimed b areas) := by
  have listed : (⟨newOrder, entry⟩ : Block) ∈ freeBlocks mem.area := (mem_freeBlocks _ _).2 ⟨high, queued⟩
  obtain ⟨taken, shrunk⟩ := takeEntry_spec mem.area ⟨newOrder, entry⟩ inv.areas listed
  obtain ⟨b, sameOrder, sameStart, after, balance⟩ := expand_spec (newOrder - order) order _ _ taken
    (by simp only; omega)
  have isIn (frame : Nat) (inside : b.Holds frame) : region frame := after.tiling.within (by simp) frame inside
  have below : b.start < mem.maxMapNr := inv.below _ (isIn _ b.holds_start)
  have unheld (frame : Nat) (inside : b.Holds frame) : (mem.page frame).referenced = false := by
    rw [← Bool.not_eq_true, inv.referenced frame (isIn frame inside)]
    rintro ⟨c, member, holds⟩
    exact (after.held_first.head_apart (mem_append_right _ member)).not_holds inside holds
  have total : toInt (mem.nrFreePages - 2 ^ order) =
      listedPages (expand (takeEntry mem.area newOrder entry) entry order (newOrder - order)).1 := by
    apply inv.toInt_listed after
    rw [inv.nrFree, shrunk, ← balance, Block.size, sameOrder]
    push_cast
    ring
  have mapped : ¬ (kaddrspaceStart + mem.phyMemSize ≤ address b.start ∨ address b.start < kaddrspaceStart) := by
    have backed := inv.backed
    rw [address_eq (below.trans inv.limit)]
    simp only [pageSize] at *
    omega
  have flipped := flipReferenced_block false mem.page b 1 unheld
  refine ⟨b, _, sameOrder, after, ?_⟩
  rw [sameOrder] at flipped
  simp only [takeBlock, sameStart, flipped, total]
  simp [mapped, guard, Mem.claimed]

theorem getFreePages_spec (inv : MemInv region mem held) (gfpMask order : Nat) :
    getFreePages mem gfpMask order = some (0, { mem with statAllocs := mem.statAllocs + 1 }) ∨
      ∃ (b : Block) (areas : Areas), b.order = order ∧ AreasInv region areas (b :: held) ∧
        getFreePages mem gfpMask order = some (address b.start, mem.claimed b areas) := by
  simp only [getFreePages]
  split_ifs with tooLarge
  · exact .inl rfl
  cases search : findFree mem.page mem.area order (nrMemLists - order) with
  | none => exact .inl rfl
  | some found =>
    obtain ⟨low, high, queued⟩ := findFree_spec _ _ _ _ search
    exact .inr (takeBlock_spec inv low (by omega) queued)

end JinyKernel.Buddy
