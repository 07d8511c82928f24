import JinyKernel.Buddy.Ops

namespace JinyKernel.Buddy

open Dyadic List

-- The pages to unreserve and the pages to look at, each frame once.
structure Boot where
  phyMemSize : Nat
  maxMapNr : Nat
  available : List Nat
  visited : List Nat
  limit : maxMapNr < frameLimit
  backed : maxMapNr * pageSize ≤ phyMemSize
  below : ∀ addr ∈ available, mapNr addr < maxMapNr
  once : (visited.map mapNr).Nodup

namespace Boot

def mem (boot : Boot) : Option Mem :=
  releaseMem { initFreeArea boot.phyMemSize with maxMapNr := boot.maxMapNr } boot.available boot.visited

def Released (boot : Boot) (frame : Nat) : Prop :=
  frame ∈ boot.visited.map mapNr ∧ frame ∈ boot.available.map mapNr

end Boot

def Page.Blank (page : Page) : Prop := page = { blankPage with reserved := page.reserved }

theorem clearReserved_blank (addrs : List Nat) (pages : Pages) (blank : ∀ frame, (pages frame).Blank) (frame : Nat) :
    (clearReserved pages addrs frame).Blank ∧
      ((clearReserved pages addrs frame).reserved = false ↔
        (pages frame).reserved = false ∨ frame ∈ addrs.map mapNr) := by
  induction addrs generalizing pages with
  | nil => simp [clearReserved, blank frame]
  | cons addr rest ih =>
    have cleared : ∀ other,
        (setPage pages (mapNr addr) { pages (mapNr addr) with reserved := false } other).Blank := by
      intro other
      by_cases here : other = mapNr addr
      · subst here
        have before := blank (mapNr addr)
        rw [before]
        simp [setPage, Page.Blank]
      · simpa [setPage, here] using blank other
    obtain ⟨stays, iff⟩ := ih _ cleared
    refine ⟨stays, ?_⟩
    change (clearReserved _ rest frame).reserved = false ↔ _
    rw [iff]
    by_cases here : frame = mapNr addr
    · subst here
      simp [setPage]
    · simp [setPage, here]

section

variable {region : Nat -> Prop} {mem : Mem} {held : List Block}

theorem MemInv.congr {region' : Nat -> Prop} (inv : MemInv region mem held)
    (same : ∀ frame, region frame ↔ region' frame) : MemInv region' mem held := by
  have equal := funext fun frame => propext (same frame)
  exact equal ▸ inv

theorem MemInv.extend (inv : MemInv region mem held) {frame : Nat} (fresh : ¬ region frame)
    (below : frame < mem.maxMapNr) (blank : (mem.page frame).Blank) (available : (mem.page frame).reserved = false) :
    MemInv (fun other => region other ∨ other = frame)
      { mem with page := setPage mem.page frame { mem.page frame with count := 1, referenced := true } }
      (⟨0, frame⟩ :: held) := by
  have single (other : Nat) : (⟨0, frame⟩ : Block).Holds other ↔ other = frame := by
    simp only [Block.Holds, Block.size, pow_zero]
    omega
  have old {other : Nat} (inRegion : region other) : other ≠ frame := by
    rintro rfl
    exact fresh inRegion
  have areas := System.extend (b := ⟨0, frame⟩) inv.areas (one_dvd _) (Nat.zero_le _) fun cell inside =>
    (single cell).1 inside ▸ fresh
  simp only [single] at areas
  refine ⟨areas, inv.nrFree, inv.limit, inv.backed, ?_, ?_, ?_, ?_⟩
  · rintro other (inRegion | rfl)
    · exact inv.below other inRegion
    · exact below
  · rintro other (inRegion | rfl)
    · simpa [setPage, old inRegion] using inv.ordinary other inRegion
    · rw [Page.Blank, available] at blank
      simp [setPage, blank, Page.Ordinary, blankPage]
  · rintro other (inRegion | rfl)
    · simpa [setPage, old inRegion, single] using inv.referenced other inRegion
    · simp [setPage, single]
  intro b member
  rcases mem_cons.1 member with rfl | inHeld
  · simp [setPage]
  · have inRegion := inv.areas.tiling.within (mem_append_right _ inHeld) b.start b.holds_start
    simpa [setPage, old inRegion] using inv.counted b inHeld

theorem releasePages_spec (rest : List Nat) (inv : MemInv region mem [])
    (once : (rest.map mapNr).Nodup) (fresh : ∀ frame ∈ rest.map mapNr, ¬ region frame ∧ (mem.page frame).Blank)
    (below : ∀ frame ∈ rest.map mapNr, (mem.page frame).reserved = false -> frame < mem.maxMapNr) :
    ∃ mem', releasePages mem rest = some mem' ∧ MemInv (fun frame => region frame ∨
      frame ∈ rest.map mapNr ∧ (mem.page frame).reserved = false) mem' [] := by
  induction rest generalizing region mem with
  | nil => exact ⟨mem, rfl, inv.congr (by simp)⟩
  | cons addr rest ih =>
    rw [map_cons, nodup_cons] at once
    have freshRest : ∀ frame ∈ rest.map mapNr, ¬ region frame ∧ (mem.page frame).Blank :=
      fun frame member => fresh frame (by simp only [map_cons]; exact mem_cons_of_mem _ member)
    have belowRest : ∀ frame ∈ rest.map mapNr, (mem.page frame).reserved = false -> frame < mem.maxMapNr :=
      fun frame member => below frame (by simp only [map_cons]; exact mem_cons_of_mem _ member)
    obtain ⟨outside, blank⟩ := fresh (mapNr addr) (by simp)
    by_cases reserved : (mem.page (mapNr addr)).reserved = true
    · obtain ⟨mem', run, after⟩ := ih inv once.2 freshRest belowRest
      refine ⟨mem', by simpa [releasePages, reserved] using run, after.congr fun frame => ?_⟩
      have skipped : frame = mapNr addr -> ¬ (mem.page frame).reserved = false := by
        rintro rfl
        simp [reserved]
      simp only [map_cons, mem_cons]
      tauto
    rw [Bool.not_eq_true] at reserved
    have extended := inv.extend outside (below _ (by simp) reserved) blank reserved
    obtain ⟨areas, freed, put⟩ := putFreePages_spec extended addr rfl
    have next := extended.release freed
    have untouched (frame : Nat) (member : frame ∈ rest.map mapNr) :
        markBlock (setPage mem.page (mapNr addr)
          { mem.page (mapNr addr) with count := 1, referenced := true }) ⟨0, mapNr addr⟩ 0 false frame =
          mem.page frame := by
      have different : frame ≠ mapNr addr := by
        rintro rfl
        exact once.1 member
      rw [markBlock_outside, setPage, Function.update_of_ne different]
      simp only [Block.Holds, Block.size, pow_zero]
      omega
    obtain ⟨mem', run, after⟩ := ih next once.2
      (fun frame member => by
        simp only [Mem.released, untouched frame member]
        refine ⟨?_, (freshRest frame member).2⟩
        rintro (inRegion | rfl)
        · exact (freshRest frame member).1 inRegion
        · exact once.1 member)
      (fun frame member => by
        simp only [Mem.released, untouched frame member]
        exact belowRest frame member)
    refine ⟨mem', ?_, after.congr fun frame => ?_⟩
    · rw [releasePages, if_neg (by simp [reserved])]
      change (putFreePages _ addr 0).bind _ = _
      rw [put]
      exact run
    simp only [map_cons, mem_cons]
    by_cases here : frame = mapNr addr
    · simp [here, reserved]
    by_cases member : frame ∈ rest.map mapNr
    · simp only [Mem.released, untouched frame member, here, member]
      tauto
    · simp [here, member]

end

theorem freeBlocks_empty : freeBlocks (fun _ => initMemQueue) = [] := rfl

theorem initFreeArea_inv (boot : Boot) :
    MemInv (fun _ => False) { initFreeArea boot.phyMemSize with maxMapNr := boot.maxMapNr } [] where
  areas :=
    { tiling := ⟨by simp [initFreeArea, freeBlocks_empty], by simp [initFreeArea, freeBlocks_empty],
        by simp [initFreeArea, freeBlocks_empty]⟩
      bounded := by simp [initFreeArea, freeBlocks_empty]
      paired := by
        intro order index _
        simp only [initFreeArea, freeBlocks_empty, areaBits]
        simp [initMemQueue]
      coalesced := by simp [Coalesced, initFreeArea, freeBlocks_empty] }
  nrFree := by simp [listedPages, initFreeArea, freeBlocks_empty]
  __ := boot
  below := by simp
  ordinary := by simp
  referenced := by simp
  counted := by simp

theorem Boot.mem_spec (boot : Boot) : ∃ mem, boot.mem = some mem ∧ MemInv boot.Released mem [] := by
  have cleared (frame : Nat) := clearReserved_blank boot.available (fun _ => blankPage) (fun _ => rfl) frame
  have start := initFreeArea_inv boot
  have unreserved : MemInv (fun _ => False) { initFreeArea boot.phyMemSize with
      maxMapNr := boot.maxMapNr
      page := clearReserved (fun _ => blankPage) boot.available } [] :=
    ⟨start.areas, start.nrFree, start.limit, start.backed, by simp, by simp, by simp, by simp⟩
  obtain ⟨mem, run, inv⟩ := releasePages_spec boot.visited unreserved boot.once
    (fun frame _ => ⟨id, (cleared frame).1⟩)
    (fun frame _ available => by
      obtain ⟨addr, member, rfl⟩ : ∃ addr ∈ boot.available, mapNr addr = frame := by
        simpa [blankPage] using (cleared frame).2.1 available
      exact boot.below addr member)
  have released : MemInv boot.Released mem [] := inv.congr fun frame => by
    simp only [Boot.Released, (cleared frame).2]
    simp [blankPage]
  refine ⟨{ mem with statAllocs := 0, statFrees := 0 }, ?_, ?_⟩
  · simp only [Boot.mem, releaseMem, initFreeArea] at run ⊢
    simp [run]
  · exact { released with }

variable {phyMemSize startMem endMem virtStartAddr : Nat}

theorem mem_pageAddrs {low high addr : Nat} (member : addr ∈ pageAddrs low high) : low ≤ addr ∧ addr < high := by
  obtain ⟨i, small, rfl⟩ := mem_map.1 member
  rw [mem_range] at small
  simp only [pageSize] at *
  omega

theorem pageAddrs_once (low high : Nat) (direct : kaddrspaceStart ≤ low)
    (fits : high ≤ kaddrspaceStart + frameLimit * pageSize) : ((pageAddrs low high).map mapNr).Nodup := by
  have inside (addr : Nat) (member : addr ∈ pageAddrs low high) :
      mapNr addr = (addr - kaddrspaceStart) / pageSize := by
    have bounds := mem_pageAddrs member
    exact mapNr_direct (by omega) (by omega)
  refine List.Nodup.map_on ?_ (List.Nodup.map ?_ nodup_range)
  · intro a hasA b hasB same
    rw [inside a hasA, inside b hasB] at same
    obtain ⟨i, -, rfl⟩ := mem_map.1 hasA
    obtain ⟨j, -, rfl⟩ := mem_map.1 hasB
    simp only [pageSize, kaddrspaceStart] at *
    omega
  · intro i j same
    simp only [pageSize] at same
    omega

section

variable (lowStart : kaddrspaceStart ≤ startMem) (ordered : startMem ≤ endMem) (lowVirt : kaddrspaceStart ≤ virtStartAddr)
  (lowEnd : kaddrspaceStart + 0x2000 ≤ pageMask endMem) (high : endMem ≤ kaddrspaceStart + phyMemSize)
  (fits : phyMemSize < frameLimit * pageSize)

include lowEnd high fits

theorem direct_maxMapNr : mapNr (pageMask endMem) < frameLimit ∧ mapNr (pageMask endMem) * pageSize ≤ phyMemSize := by
  constructor <;> rw [mapNr_direct] <;> simp only [pageMask, pageSize, kaddrspaceStart, frameLimit] at * <;> omega

include lowVirt in
theorem direct_once : ((pageAddrs virtStartAddr (wrapSub (pageMask endMem) 0x2000)).map mapNr).Nodup := by
  apply pageAddrs_once _ _ lowVirt
  simp only [wrapSub, pageMask, pageSize, kaddrspaceStart, frameLimit] at *
  omega

include lowStart ordered

omit lowEnd in
theorem direct_below (addr : Nat) (member : addr ∈ pageAddrs (pageAlign startMem) (pageMask endMem)) :
    mapNr addr < mapNr (pageMask endMem) := by
  have bounds := mem_pageAddrs member
  have direct : kaddrspaceStart ≤ pageAlign startMem := by
    simp only [pageAlign, wrap, pageMask, pageSize, kaddrspaceStart, frameLimit] at *
    omega
  -- Both ends are page addresses.
  have highPage : pageMask endMem % pageSize = 0 := Nat.mul_mod_left _ _
  have last : pageMask endMem ≤ endMem := Nat.div_mul_le_self _ _
  rw [mapNr_direct, mapNr_direct] <;> simp only [pageSize, kaddrspaceStart, frameLimit] at * <;> omega

include lowVirt

def Boot.direct : Boot where
  phyMemSize := phyMemSize
  maxMapNr := mapNr (pageMask endMem)
  available := pageAddrs (pageAlign startMem) (pageMask endMem)
  visited := pageAddrs virtStartAddr (wrapSub (pageMask endMem) 0x2000)
  limit := (direct_maxMapNr lowEnd high fits).1
  backed := (direct_maxMapNr lowEnd high fits).2
  below := direct_below lowStart ordered high fits
  once := direct_once lowVirt lowEnd high fits

theorem initMem_frees : ∃ mem, initMem (initFreeArea phyMemSize) startMem endMem virtStartAddr = some mem ∧
    ∀ frame, (∃ b ∈ freeBlocks mem.area, b.Holds frame) ↔
      frame ∈ (pageAddrs virtStartAddr (wrapSub (pageMask endMem) 0x2000)).map mapNr ∧
        frame ∈ (pageAddrs (pageAlign startMem) (pageMask endMem)).map mapNr := by
  obtain ⟨mem, run, inv⟩ := (Boot.direct lowStart ordered lowVirt lowEnd high fits).mem_spec
  have covers := inv.areas.tiling.covers
  rw [append_nil] at covers
  exact ⟨mem, run, fun frame => (covers frame).symm⟩

end

theorem initMem_frees_page : ∃ mem, initMem (initFreeArea 0x8000) kaddrspaceStart (kaddrspaceStart + 0x8000)
    (kaddrspaceStart + 0x4008) = some mem ∧ ∃ b ∈ freeBlocks mem.area, b.Holds 5 := by
  obtain ⟨mem, run, free⟩ := initMem_frees (le_refl kaddrspaceStart) (by decide)
    (by decide : kaddrspaceStart ≤ kaddrspaceStart + 0x4008) (by decide) (le_refl (kaddrspaceStart + 0x8000)) (by decide)
  exact ⟨mem, run, (free 5).2 (by decide)⟩

end JinyKernel.Buddy
