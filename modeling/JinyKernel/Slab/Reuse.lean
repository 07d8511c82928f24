import JinyKernel.Slab.Run

namespace JinyKernel.Slab

open Function List Option Run

def FreeSlot (heap : Heap) (frame : Nat) : Prop :=
  ∃ k < heap.slabs.cache.maxObjPerSlab, slot heap.slabs.cache.objSize frame k ∉ heap.live

-- `free_obj` leaves a page on the list it is on: one that was full must become empty.
def Reusable (heap : Heap) : Event -> Prop
  | .free addr => FreeSlot heap (mapNr (pageMask addr)) ∨
      ∀ other ∈ heap.live, mapNr (pageMask other) = mapNr (pageMask addr) -> other = addr
  | _ => True

structure Reuse (heap : Heap) : Prop where
  nonfull : ∀ frame ∈ heap.slabs.pages, FreeSlot heap frame ↔ frame ∈ heap.slabs.cache.partialList
  full : ∀ frame ∈ heap.slabs.pages, ¬ FreeSlot heap frame ↔ frame ∈ heap.slabs.cache.fullList
  total : heap.slabs.cache.statTotalPages = heap.slabs.pages.length
  alloc : (∃ frame ∈ heap.slabs.pages, FreeSlot heap frame) ->
    ∀ next, step heap .alloc = some next -> next.slabs.buddy = heap.slabs.buddy

structure Packed (s : Slabs) (live : List Nat) : Prop where
  taken : ∀ frame ∈ s.cache.fullList, ∀ k < capacity s.cache.objSize, slot s.cache.objSize frame k ∈ live
  total : s.cache.statTotalPages = s.pages.length

def SameLayout (cache other : Jcache) : Prop :=
  cache.objSize = other.objSize ∧ cache.pageOrder = other.pageOrder ∧ cache.maxObjPerSlab = other.maxObjPerSlab

theorem findFirstZeroBit_bound (bits : Nat -> Bool) : findFirstZeroBit bits bitmapBits ≤ bitmapBits := by
  change ((List.range 64).find? fun i => !bits i).getD 64 ≤ 64
  cases found : (List.range 64).find? fun i => !bits i with
  | none => exact le_refl 64
  | some i => exact (mem_range.1 (mem_of_find?_eq_some found)).le

theorem findFirstZeroBit_below {bits : Nat -> Bool} {k : Nat} (below : k < findFirstZeroBit bits bitmapBits) :
    bits k = true := by
  have bound := findFirstZeroBit_bound bits
  by_contra clear
  have least := (findFirstZeroBit_le (by omega) (Bool.eq_false_iff.2 clear)).1
  omega

section

variable {region : Nat -> Prop} {objSize frame addr : Nat} {s next : Slabs} {live : List Nat}

theorem SlabInv.slot_left (inv : SlabInv region objSize s live) (listed : frame ∈ s.cache.partialList) :
    ∃ k < capacity s.cache.objSize, slot s.cache.objSize frame k ∉ live := by
  have member : frame ∈ s.pages := mem_append_left _ listed
  by_cases few : capacity s.cache.objSize ≤ bitmapBits
  · obtain ⟨k, inside, clear⟩ := inv.room frame listed few
    refine ⟨k, inside, fun alive => ?_⟩
    rw [((inv.page frame member).bit k (by omega)).2 ⟨inside, alive⟩] at clear
    cases clear
  refine ⟨bitmapBits, by omega, fun alive => ?_⟩
  obtain ⟨other, belongs, k, low, inside, same⟩ := inv.object _ alive
  have index := (slot_injective (inv.below frame member) (inv.below other belongs) inv.layout.positive (by omega) inside
    same).2
  omega

theorem allocFrom_lists {rest : List Nat} (ran : allocFrom s frame rest = some (addr, next)) :
    next.buddy = s.buddy ∧ next.cache.statTotalPages = s.cache.statTotalPages ∧
      SameLayout next.cache s.cache ∧ addr = slot s.cache.objSize frame
        (findFirstZeroBit (s.frame frame).bits bitmapBits) ∧
      (next.cache.partialList = s.cache.partialList ∧ next.cache.fullList = s.cache.fullList ∨
        next.cache.partialList = rest ∧ next.cache.fullList = frame :: s.cache.fullList ∧
          ∀ k < s.cache.maxObjPerSlab, k < bitmapBits ∧ (next.frame frame).bits k = true) := by
  simp only [allocFrom, bind_iff] at ran
  obtain ⟨_, _, made⟩ := ran
  cases made
  refine ⟨rfl, rfl, ⟨rfl, rfl, rfl⟩, rfl, ?_⟩
  set taken := update (s.frame frame).bits (findFirstZeroBit (s.frame frame).bits bitmapBits) true
  by_cases full : s.cache.maxObjPerSlab < findFirstZeroBit taken bitmapBits + 1
  · refine .inr ⟨by simp [full], by simp [full], fun k inside => ?_⟩
    have bound := findFirstZeroBit_bound taken
    have low : k < bitmapBits := by omega
    refine ⟨low, ?_⟩
    simp only [update_self]
    rw [clearObject_bitmap _ _ _ low]
    exact findFirstZeroBit_below (by omega)
  · exact .inl ⟨by simp [full], by simp [full]⟩

theorem getpages_lists (ran : getpages s = some (addr, next)) :
    next.cache.fullList = s.cache.fullList ∧ SameLayout next.cache s.cache ∧
      (next.cache.partialList = s.cache.partialList ∧ next.cache.statTotalPages = s.cache.statTotalPages ∨
        ∃ frame, next.cache.partialList = frame :: s.cache.partialList ∧
          next.cache.statTotalPages = s.cache.statTotalPages + 2 ^ s.cache.pageOrder) := by
  simp only [getpages, bind_iff] at ran
  obtain ⟨⟨addr, buddy⟩, _, made⟩ := ran
  split at made
  · cases made
    exact ⟨rfl, ⟨rfl, rfl, rfl⟩, .inl ⟨rfl, rfl⟩⟩
  · cases made
    exact ⟨rfl, ⟨rfl, rfl, rfl⟩, .inr ⟨_, rfl, rfl⟩⟩

theorem Packed.allocFrom {rest live' : List Nat} (packed : Packed s live)
    (first : s.cache.partialList = frame :: rest) (ran : allocFrom s frame rest = some (addr, next))
    (count : s.cache.maxObjPerSlab = capacity s.cache.objSize) (after : SlabInv region objSize next live')
    (grown : ∀ old ∈ live, old ∈ live') : Packed next live' := by
  obtain ⟨_, total, ⟨size, -⟩, _, ⟨same, sameFull⟩ | ⟨shorter, longer, set⟩⟩ := allocFrom_lists ran
  · refine ⟨fun other listed k inside => ?_, ?_⟩
    · rw [sameFull] at listed
      rw [size] at inside ⊢
      exact grown _ (packed.taken other listed k inside)
    · rw [total, packed.total, Slabs.pages, Slabs.pages, same, sameFull]
  refine ⟨fun other listed k inside => ?_, ?_⟩
  · rw [size] at inside
    by_cases here : other = frame
    · subst here
      have member : other ∈ next.pages := mem_append_right _ listed
      obtain ⟨low, bit⟩ := set k (by omega)
      exact (((after.page other member).bit k low).1 bit).2
    · rw [longer, mem_cons, or_iff_right here] at listed
      rw [size]
      exact grown _ (packed.taken other listed k inside)
  · rw [total, packed.total, Slabs.pages, Slabs.pages, first, shorter, longer]
    simp only [length_append, length_cons]
    omega

theorem Packed.getpages (packed : Packed s live) (order : s.cache.pageOrder = 0)
    (ran : getpages s = some (addr, next)) : Packed next live := by
  obtain ⟨full, ⟨size, -⟩, outcome⟩ := getpages_lists ran
  refine ⟨fun other listed k inside => ?_, ?_⟩
  · rw [full] at listed
    rw [size] at inside ⊢
    exact packed.taken other listed k inside
  rcases outcome with ⟨same, total⟩ | ⟨frame, longer, total⟩
  · rw [total, packed.total, Slabs.pages, Slabs.pages, full, same]
  · rw [total, packed.total, Slabs.pages, Slabs.pages, full, longer, order]
    simp only [length_append, length_cons]
    omega

theorem freepages_lists (order : s.cache.pageOrder = 0) (ran : freepages s frame = some next) :
    next.cache.partialList = s.cache.partialList.erase frame ∧ next.cache.fullList = s.cache.fullList.erase frame ∧
      next.cache.statTotalPages = s.cache.statTotalPages - 1 ∧ next.cache.objSize = s.cache.objSize := by
  simp only [freepages, bind_iff] at ran
  obtain ⟨_, _, _, _, buddy, _, made⟩ := ran
  cases made
  exact ⟨rfl, rfl, by simp [order], rfl⟩

theorem freeObj_lists (order : s.cache.pageOrder = 0) (small : (s.frame (mapNr (pageMask addr))).largePage = false)
    (ran : freeObj s addr = some next) : next.cache.objSize = s.cache.objSize ∧
      (¬ emptyBitmap (update (s.frame (mapNr (pageMask addr))).bits (objIndex s addr).toNat false) ∧
          next.cache.partialList = s.cache.partialList ∧ next.cache.fullList = s.cache.fullList ∧
          next.cache.statTotalPages = s.cache.statTotalPages ∨
        next.cache.partialList = s.cache.partialList.erase (mapNr (pageMask addr)) ∧
          next.cache.fullList = s.cache.fullList.erase (mapNr (pageMask addr)) ∧
          next.cache.statTotalPages = s.cache.statTotalPages - 1) := by
  simp only [freeObj, small, Bool.false_eq_true, if_false, freeSmall, bind_iff] at ran
  obtain ⟨_, _, _, _, _, _, _, _, _, _, done⟩ := ran
  split at done
  next empty =>
    obtain ⟨freed, emptied, made⟩ := bind_iff.1 done
    obtain ⟨lists, fullList, total, size⟩ := freepages_lists (by exact order) emptied
    cases made
    exact ⟨size, .inr ⟨lists, fullList, total⟩⟩
  next used =>
    cases done
    exact ⟨rfl, .inl ⟨used, rfl, rfl, rfl⟩⟩

end

section

variable {region : Nat -> Prop} {objSize : Nat} {heap next : Heap}

section

variable (packed : Packed heap.slabs heap.live) (inv : SlabInv region objSize heap.slabs heap.live)

include packed inv

theorem Packed.alloc
    (left : BitLeft heap .alloc) (moved : step heap .alloc = some next) : Packed next.slabs next.live := by
  have after : SlabInv region objSize next.slabs next.live := by
    obtain ⟨other, done, sound⟩ := allocObj_spec inv left
    cases done.symm.trans moved
    exact sound
  rw [step, bind_iff] at moved
  obtain ⟨⟨addr, slabs⟩, taken, made⟩ := moved
  cases some.inj made
  have grown : ∀ old ∈ heap.live, old ∈ if addr = 0 then heap.live else addr :: heap.live := by
    intro old alive
    split
    · exact alive
    · exact mem_cons_of_mem _ alive
  cases listed : heap.slabs.cache.partialList with
  | nil =>
    obtain ⟨fresh, ready, got, sound, _⟩ := getpages_spec inv listed
    have paged := packed.getpages inv.layout.order got
    simp only [allocObj, if_neg inv.small, listed, got, map_some, some_bind] at taken
    cases first : ready.cache.partialList with
    | nil =>
      rw [first] at taken
      cases taken
      exact paged
    | cons frame rest =>
      rw [first] at taken
      exact paged.allocFrom first taken sound.layout.count after grown
  | cons frame rest =>
    simp only [allocObj, if_neg inv.small, listed, some_bind] at taken
    exact packed.allocFrom listed taken inv.layout.count after grown

theorem Packed.free {addr : Nat} (alive : addr ∈ heap.live) (reusable : Reusable heap (.free addr))
    (moved : step heap (.free addr) = some next) : Packed next.slabs next.live := by
  simp only [step, bind_iff] at moved
  obtain ⟨slabs, freed, made⟩ := moved
  cases made
  obtain ⟨frame, member, k, low, inside, rfl⟩ := inv.object addr alive
  have positive := inv.layout.positive
  have below := inv.below frame member
  have own := inv.page frame member
  rw [Reusable, mapNr_slot below positive inside] at reusable
  have small : (heap.slabs.frame (mapNr (pageMask (slot heap.slabs.cache.objSize frame k)))).largePage = false := by
    rw [mapNr_slot below positive inside]
    exact own.small
  have lists := freeObj_lists inv.layout.order small freed
  rw [mapNr_slot below positive inside, objIndex_slot rfl below positive inside, Int.toNat_natCast] at lists
  -- the slots of other pages are not the one that is freed
  have elsewhere : ∀ other ∈ heap.slabs.cache.fullList, other ≠ frame -> ∀ j < capacity heap.slabs.cache.objSize,
      slot heap.slabs.cache.objSize other j ∈ heap.live.erase (slot heap.slabs.cache.objSize frame k) := by
    intro other listed apart j within
    have belongs : other ∈ heap.slabs.pages := mem_append_right _ listed
    refine (mem_erase_of_ne fun same => apart ?_).2 (packed.taken other listed j within)
    exact (slot_injective (inv.below other belongs) below positive within inside same).1
  obtain ⟨size, ⟨used, samePartial, sameFull, total⟩ | ⟨shorterPartial, shorterFull, total⟩⟩ := lists
  · -- the page still holds an object, so it was not full
    have loose : frame ∉ heap.slabs.cache.fullList := by
      intro listed
      rcases reusable with ⟨j, within, free⟩ | only
      · rw [inv.layout.count] at within
        exact free (packed.taken frame listed j within)
      rw [emptyBitmap_iff] at used
      push Not at used
      obtain ⟨j, small, bit⟩ := used
      rw [update_apply] at bit
      split at bit
      next => exact absurd rfl bit
      next apart =>
        obtain ⟨within, there⟩ := (own.bit j small).1 (Bool.eq_true_of_not_eq_false bit)
        have same := only _ there (mapNr_slot below positive within)
        exact apart (slot_injective below below positive within inside same).2
    refine ⟨fun other listed j within => ?_, ?_⟩
    · rw [sameFull] at listed
      rw [size] at within ⊢
      exact elsewhere other listed (fun same => loose (same ▸ listed)) j within
    · rw [total, packed.total, Slabs.pages, Slabs.pages, samePartial, sameFull]
  · refine ⟨fun other listed j within => ?_, ?_⟩
    · rw [shorterFull] at listed
      have nodup := (nodup_append.1 inv.nodup).2.1
      obtain ⟨apart, listed⟩ := nodup.mem_erase_iff.1 listed
      rw [size] at within ⊢
      exact elsewhere other listed apart j within
    · have one := length_pos_of_mem member
      have pages : slabs.pages = heap.slabs.pages.erase frame := by
        rw [Slabs.pages, shorterPartial, shorterFull, inv.erase_pages]
      rw [total, packed.total, pages, length_erase_of_mem member]
      omega

theorem Packed.step {event : Event} (allowed : Allowed heap event) (left : BitLeft heap event)
    (reusable : Reusable heap event) (moved : step heap event = some next) : Packed next.slabs next.live := by
  cases event with
  | alloc => exact packed.alloc inv left moved
  | free addr => exact packed.free inv allowed reusable moved
  | pages event =>
    simp only [Slab.step, bind_iff] at moved
    obtain ⟨buddy, _, made⟩ := moved
    cases made
    exact ⟨packed.taken, packed.total⟩
  | store frames =>
    cases moved
    exact ⟨packed.taken, packed.total⟩

end

theorem Start.packed {boot : Buddy.Boot} (start : Start boot objSize heap) (small : objSize < pageSize) :
    Packed heap.slabs heap.live := by
  obtain ⟨flags, made⟩ := start.cache
  rw [createJcache, if_neg (by omega)] at made
  split_ifs at made with unfit
  have cache := (some.inj made).symm
  refine ⟨fun frame listed => ?_, ?_⟩
  · rw [cache] at listed
    cases listed
  · rw [Slabs.pages, cache]
    rfl

theorem Packed.reuse (packed : Packed heap.slabs heap.live) (inv : SlabInv region objSize heap.slabs heap.live) :
    Reuse heap := by
  have room : ∀ frame ∈ heap.slabs.cache.partialList, FreeSlot heap frame := by
    intro frame listed
    rw [FreeSlot, inv.layout.count]
    exact inv.slot_left listed
  have tight : ∀ frame ∈ heap.slabs.cache.fullList, ¬ FreeSlot heap frame := by
    rintro frame listed ⟨k, within, free⟩
    rw [inv.layout.count] at within
    exact free (packed.taken frame listed k within)
  have nonfull : ∀ frame ∈ heap.slabs.pages, FreeSlot heap frame ↔ frame ∈ heap.slabs.cache.partialList := by
    intro frame member
    refine ⟨fun free => ?_, room frame⟩
    exact (mem_append.1 member).resolve_right fun listed => tight frame listed free
  refine ⟨nonfull, fun frame member => ⟨fun full => ?_, tight frame⟩, packed.total, ?_⟩
  · exact (mem_append.1 member).resolve_left fun listed => full (room frame listed)
  rintro ⟨frame, member, free⟩ next moved
  have listed := (nonfull frame member).1 free
  cases first : heap.slabs.cache.partialList with
  | nil =>
    rw [first] at listed
    cases listed
  | cons head rest =>
    simp only [Slab.step, allocObj, if_neg inv.small, first, bind_eq_bind, bind_some,
      bind_eq_some_iff] at moved
    obtain ⟨⟨addr, slabs⟩, handed, made⟩ := moved
    cases made
    exact (allocFrom_lists handed).1

end

theorem slab_reuse (boot : Buddy.Boot) (objSize : Nat) (small : objSize < pageSize) (heap : Heap)
    (reached : Reachable (Start boot objSize) step
      (fun heap event => Allowed heap event ∧ BitLeft heap event ∧ Reusable heap event) heap) : Reuse heap := by
  have both : SlabInv boot.Released objSize heap.slabs heap.live ∧ Packed heap.slabs heap.live := by
    induction reached with
    | start first => exact ⟨first.inv small, first.packed small⟩
    | next _ may moved before =>
      obtain ⟨inv, packed⟩ := before
      obtain ⟨allowed, left, reusable⟩ := may
      obtain ⟨other, done, after⟩ := step_spec inv allowed left
      cases done.symm.trans moved
      exact ⟨after, packed.step inv allowed left reusable moved⟩
  exact both.2.reuse both.1

def allocOnly (heap : Heap) : Event -> Bool
  | .alloc => 63 ≤ heap.slabs.cache.objSize
  | _ => false

theorem slab_reuse_two : ∃ heap, newHeap 2000 ≠ none ∧ heap.slabs.cache.fullList = [5] ∧ heap.live.length = 2 ∧
    Reuse heap := by
  have outcome : ((newHeap 2000).bind fun heap => [Event.alloc, .alloc].foldlM (fun heap event =>
      if allocOnly heap event then step heap event else none) heap).any
        (fun heap => heap.slabs.cache.fullList = [5] ∧ heap.live.length = 2) = true := by
    decide +kernel
  obtain ⟨heap, ran, full, two⟩ := holds_of_any outcome
  obtain ⟨first, made, ran⟩ := bind_iff.1 ran
  have reached : Reachable (Start Buddy.twoPages 2000) step (fun heap event =>
      Allowed heap event ∧ BitLeft heap event ∧ Reusable heap event) heap := by
    refine (Reachable.start (newHeap_start made)).checked (fun heap event _ may => ?_) ran
    cases event with
    | alloc => exact ⟨trivial, .inl (of_decide_eq_true may), trivial⟩
    | free | pages | store => cases may
  exact ⟨heap, by simp [made], full, two, slab_reuse Buddy.twoPages 2000 (by decide) heap reached⟩

theorem freed_slot_forgotten : ∃ heap, Reachable (Start Buddy.twoPages 2000) step Allowed heap ∧
    heap.slabs.cache.partialList = [] ∧ heap.slabs.cache.fullList = [5] ∧ FreeSlot heap 5 ∧
    ∃ next, step heap .alloc = some next ∧ next.slabs.cache.partialList = [4] := by
  have outcome : ((allocs 2000 2).bind fun heap => if slot 2000 5 0 ∈ heap.live then
      step heap (.free (slot 2000 5 0)) else none).any (fun heap => heap.slabs.cache.partialList = [] ∧
        heap.slabs.cache.fullList = [5] ∧ 0 < heap.slabs.cache.maxObjPerSlab ∧
        slot heap.slabs.cache.objSize 5 0 ∉ heap.live ∧
        (step heap .alloc).map (fun next => next.slabs.cache.partialList) = some [4]) = true := by
    decide +kernel
  obtain ⟨heap, ran, empty, full, first, free, again⟩ := holds_of_any outcome
  obtain ⟨before, earlier, moved⟩ := bind_iff.1 ran
  obtain ⟨next, handed, new⟩ := map_eq_some_iff.1 again
  split_ifs at moved with alive
  have may : Allowed before (.free (slot 2000 5 0)) := alive
  exact ⟨heap, (allocs_reaches 2 (fun _ _ => trivial) earlier).next may moved, empty, full,
    ⟨0, first, free⟩, next, handed, new⟩

end JinyKernel.Slab
