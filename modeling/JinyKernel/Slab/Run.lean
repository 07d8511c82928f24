import JinyKernel.Slab.Ops

namespace JinyKernel.Slab

open Dyadic List Option Run

structure Heap where
  slabs : Slabs
  live : List Nat

inductive Event where
  | alloc
  | free (addr : Nat)
  | pages (event : Buddy.Event)
  | store (frames : Nat -> Frame)

variable (heap : Heap)

def step : Event -> Option Heap
  | .alloc => do
      let (addr, slabs) ← allocObj heap.slabs
      some ⟨slabs, if addr = 0 then heap.live else addr :: heap.live⟩
  | .free addr => do
      let slabs ← freeObj heap.slabs addr
      some ⟨slabs, heap.live.erase addr⟩
  | .pages event => do
      let buddy ← Buddy.step heap.slabs.buddy event
      some ⟨{ heap.slabs with buddy := buddy }, heap.live⟩
  | .store frames => some ⟨{ heap.slabs with frame := frames }, heap.live⟩

def byteOf (frame i : Nat) : Nat := address frame + headerSize - bitmapBits / 8 + i / 8

def Spare (buddy : Buddy.State) (frames : Nat -> Frame) : Prop :=
  ∀ frame, (∀ b ∈ buddy.held, ¬ b.Holds frame) -> (frames frame).largePage = false

def StoresInside (frames : Nat -> Frame) : Prop :=
  ∀ frame ∈ heap.slabs.pages,
    frames frame = { heap.slabs.frame frame with bits := (frames frame).bits } ∧
    ∀ i, (∀ addr ∈ heap.live, ¬ (addr ≤ byteOf frame i ∧ byteOf frame i < addr + heap.slabs.cache.objSize)) ->
      (frames frame).bits i = (heap.slabs.frame frame).bits i

def Allowed : Event -> Prop
  | .alloc => True
  | .free addr => addr ∈ heap.live
  | .pages (.getFreePages gfpMask order) => Buddy.Allowed heap.slabs.buddy (.getFreePages gfpMask order)
  | .pages (.putFreePages addr order) => Buddy.Allowed heap.slabs.buddy (.putFreePages addr order) ∧
      (∀ frame ∈ heap.slabs.pages, addr ≠ address frame) ∧
      ∀ frame, (Buddy.allocation (addr, order)).Holds frame -> (heap.slabs.frame frame).largePage = false
  | .store frames => StoresInside heap frames ∧ Spare heap.slabs.buddy frames

-- The next page has a clear bit among its 64, as it always has with objects of 63 bytes or more.
def BitLeft : Event -> Prop
  | .alloc => 63 ≤ heap.slabs.cache.objSize ∨
      ∀ frame ∈ heap.slabs.cache.partialList.head?, ∃ k < bitmapBits, (heap.slabs.frame frame).bits k = false
  | _ => True

structure Start (boot : Buddy.Boot) (objSize : Nat) (heap : Heap) : Prop where
  buddy : boot.Reaches heap.slabs.buddy
  cache : ∃ flags, createJcache objSize flags = some heap.slabs.cache
  pointer : 0x100000 < heap.slabs.cachep
  spare : Spare heap.slabs.buddy heap.slabs.frame
  none : heap.live = []

section

variable {region : Nat -> Prop} {objSize : Nat} {heap : Heap}

theorem Start.inv {boot : Buddy.Boot} (start : Start boot objSize heap) (small : objSize < pageSize) :
    SlabInv boot.Released objSize heap.slabs heap.live := by
  obtain ⟨flags, made⟩ := start.cache
  rw [createJcache, if_neg (by omega)] at made
  split_ifs at made with unfit
  have cache := (some.inj made).symm
  have pages : heap.slabs.pages = [] := by
    rw [Slabs.pages, cache]
    rfl
  refine ⟨⟨?_, ?_, ?_, ?_, ?_, start.pointer⟩, start.buddy.inv.1, ?_, ?_, ?_, ?_, ?_, ?_, ?_, start.spare⟩ <;>
    simp [pages, start.none, cache, capacity]
  all_goals omega

theorem SlabInv.bitLeft {s : Slabs} {live : List Nat} (inv : SlabInv region objSize s live) {frame : Nat}
    (listed : frame ∈ s.cache.partialList)
    (left : 63 ≤ s.cache.objSize ∨ ∃ k < bitmapBits, (s.frame frame).bits k = false) :
    ∃ k < bitmapBits, k < capacity s.cache.objSize ∧ (s.frame frame).bits k = false := by
  by_cases few : capacity s.cache.objSize ≤ bitmapBits
  · obtain ⟨k, inside, clear⟩ := inv.room frame listed few
    exact ⟨k, by omega, inside, clear⟩
  rcases left with large | ⟨k, low, clear⟩
  · -- 64 objects of 63 bytes fill a page.
    exfalso
    apply few
    exact Nat.le_of_lt_succ (Nat.div_lt_of_lt_mul (lt_of_lt_of_le (by decide) (Nat.mul_le_mul_right _ large)))
  · exact ⟨k, low, by omega, clear⟩

theorem allocObj_spec (inv : SlabInv region objSize heap.slabs heap.live) (left : BitLeft heap .alloc) :
    ∃ next, step heap .alloc = some next ∧ SlabInv region objSize next.slabs next.live := by
  have small := inv.small
  have handOut (ready : Slabs) (frame : Nat) (rest : List Nat) (sound : SlabInv region objSize ready heap.live)
      (first : ready.cache.partialList = frame :: rest)
      (bit : 63 ≤ ready.cache.objSize ∨ ∃ k < bitmapBits, (ready.frame frame).bits k = false) :
      ∃ addr next, allocFrom ready frame rest = some (addr, next) ∧ addr ≠ 0 ∧
        SlabInv region objSize next (addr :: heap.live) := by
    obtain ⟨k, low, inside, clear⟩ := sound.bitLeft (first ▸ mem_cons_self) bit
    exact allocFrom_spec sound first low inside clear
  cases listed : heap.slabs.cache.partialList with
  | nil =>
    obtain ⟨_, ready, got, sound, empty⟩ := getpages_spec inv listed
    cases first : ready.cache.partialList with
    | nil => exact ⟨⟨ready, heap.live⟩, by simp [step, allocObj, small, listed, got, first], sound⟩
    | cons frame rest =>
      have bit := empty frame (first ▸ mem_cons_self)
      obtain ⟨addr, next, taken, notNull, after⟩ :=
        handOut ready frame rest sound first (.inr ⟨0, by decide, bit⟩)
      exact ⟨⟨next, addr :: heap.live⟩, by simp [step, allocObj, small, listed, got, first, taken, notNull], after⟩
  | cons frame rest =>
    have bit := left.imp id fun all => all frame (by simp [listed])
    obtain ⟨addr, next, taken, notNull, after⟩ := handOut heap.slabs frame rest inv listed bit
    exact ⟨⟨next, addr :: heap.live⟩, by simp [step, allocObj, small, listed, taken, notNull], after⟩

theorem pages_spec (inv : SlabInv region objSize heap.slabs heap.live) {event : Buddy.Event}
    (allowed : Allowed heap (.pages event)) :
    ∃ next, step heap (.pages event) = some next ∧ SlabInv region objSize next.slabs next.live := by
  cases event with
  | getFreePages gfpMask order =>
    obtain ⟨addr, buddy, took, sound, ⟨-, same⟩ | ⟨-, outstanding⟩⟩ := Buddy.takePages_spec inv.buddy gfpMask order
    · refine ⟨⟨{ heap.slabs with buddy := buddy }, heap.live⟩, by simp [step, Buddy.step, took], ?_⟩
      apply inv.with_buddy sound
      · simpa only [same] using inv.held
      · simpa only [Buddy.State.held, same] using inv.spare
    · exact ⟨⟨{ heap.slabs with buddy := buddy }, heap.live⟩, by simp [step, Buddy.step, took],
        inv.taken sound outstanding⟩
  | putFreePages addr order =>
    obtain ⟨member, foreign, ordinary⟩ := allowed
    obtain ⟨buddy, given, sound, outstanding⟩ := Buddy.givePages_spec inv.buddy member
    refine ⟨⟨{ heap.slabs with buddy := buddy }, heap.live⟩, by simp [step, Buddy.step, given], ?_⟩
    apply inv.with_buddy sound
    · intro frame belongs
      rw [outstanding, mem_erase_of_ne fun same => foreign frame belongs (congrArg Prod.fst same).symm]
      exact inv.held frame belongs
    intro frame free
    by_cases inside : (Buddy.allocation (addr, order)).Holds frame
    · exact ordinary frame inside
    apply inv.spare
    intro b held
    obtain ⟨entry, listed, rfl⟩ := mem_map.1 held
    by_cases gone : entry = (addr, order)
    · exact gone ▸ inside
    · apply free
      rw [Buddy.State.held, outstanding]
      exact mem_map_of_mem ((mem_erase_of_ne gone).2 listed)

theorem SlabInv.bitmap_outside {s : Slabs} {live : List Nat} (inv : SlabInv region objSize s live) {frame k addr : Nat}
    (member : frame ∈ s.pages) (low : k < bitmapBits) (alive : addr ∈ live) :
    ¬ (addr ≤ byteOf frame k ∧ byteOf frame k < addr + s.cache.objSize) := by
  obtain ⟨other, belongs, j, -, inside, rfl⟩ := inv.object addr alive
  have fits := slot_end_le inside
  rw [slot, byteOf, address_eq (inv.below frame member), address_eq (inv.below other belongs)]
  simp only [headerSize, pageSize, bitmapBits] at *
  omega

theorem store_spec (inv : SlabInv region objSize heap.slabs heap.live) {frames : Nat -> Frame}
    (allowed : Allowed heap (.store frames)) :
    SlabInv region objSize { heap.slabs with frame := frames } heap.live := by
  obtain ⟨inside, spare⟩ := allowed
  have bitmap (frame : Nat) (member : frame ∈ heap.slabs.pages) (k : Nat) (low : k < bitmapBits) :
      (frames frame).bits k = (heap.slabs.frame frame).bits k :=
    (inside frame member).2 k fun addr => inv.bitmap_outside member low
  refine { inv with page := ?_, room := ?_, spare := spare }
  · intro frame member
    have before := inv.page frame member
    change PageInv (frames frame) _ _ _ _
    rw [(inside frame member).1]
    refine ⟨before.slab, before.small, before.owner, before.magic0, before.magic1, fun k low => ?_⟩
    exact (bitmap frame member k low).symm ▸ before.bit k low
  · intro frame listed few
    obtain ⟨k, below, clear⟩ := inv.room frame listed few
    exact ⟨k, below, (bitmap frame (mem_append_left _ listed) k (below.trans_le few)).trans clear⟩

theorem step_spec (inv : SlabInv region objSize heap.slabs heap.live) {event : Event} (allowed : Allowed heap event)
    (left : BitLeft heap event) :
    ∃ next, step heap event = some next ∧ SlabInv region objSize next.slabs next.live := by
  cases event with
  | alloc => exact allocObj_spec inv left
  | free addr =>
    obtain ⟨slabs, freed, after⟩ := freeObj_spec inv allowed
    exact ⟨⟨slabs, heap.live.erase addr⟩, by simp [step, freed], after⟩
  | pages event => exact pages_spec inv allowed
  | store frames => exact ⟨_, rfl, store_spec inv allowed⟩

end

theorem reached_inv {boot : Buddy.Boot} {objSize : Nat} (small : objSize < pageSize) {heap : Heap} (reached : Reachable
    (Start boot objSize) step (fun heap event => Allowed heap event ∧ BitLeft heap event) heap) :
    SlabInv boot.Released objSize heap.slabs heap.live ∧
      ∀ event, Allowed heap event ∧ BitLeft heap event -> (step heap event).isSome :=
  Reachable.progress (fun _ first => Start.inv first small)
    (fun _ _ before allowed => step_spec before allowed.1 allowed.2) reached

theorem live_objects_exclusive (boot : Buddy.Boot) (objSize : Nat) (small : objSize < pageSize) (heap : Heap)
    (reached : Reachable (Start boot objSize) step (fun heap event => Allowed heap event ∧ BitLeft heap event)
      heap) :
    heap.live.Pairwise (fun left right => left + objSize ≤ right ∨ right + objSize ≤ left) ∧
    (∀ addr ∈ heap.live, mapNr (pageMask addr) ∈ heap.slabs.pages ∧
      pageMask addr + headerSize ≤ addr ∧ addr + objSize ≤ pageMask addr + pageSize ∧
      0 ≤ objIndex heap.slabs addr ∧ objIndex heap.slabs addr < bitmapBits ∧
      (heap.slabs.frame (mapNr (pageMask addr))).bits (objIndex heap.slabs addr).toNat = true) ∧
    ∀ event, Allowed heap event -> BitLeft heap event -> (step heap event).isSome := by
  obtain ⟨inv, progress⟩ := reached_inv small reached
  have size := inv.layout.size
  have positive := inv.layout.positive
  refine ⟨?_, ?_, fun event allowed left => progress event ⟨allowed, left⟩⟩
  · refine inv.once.imp_of_mem fun {left right} alive alive' different => ?_
    obtain ⟨frame, member, k, -, inside, rfl⟩ := inv.object left alive
    obtain ⟨other, member', j, -, inside', rfl⟩ := inv.object right alive'
    rw [← size]
    apply slots_apart (inv.below frame member) (inv.below other member') inside inside'
    rintro ⟨rfl, rfl⟩
    exact different rfl
  intro addr alive
  obtain ⟨frame, member, k, low, inside, rfl⟩ := inv.object addr alive
  have below := inv.below frame member
  have fits := slot_end_le inside
  rw [objIndex_slot rfl below positive inside, pageMask_slot below positive inside, mapNr_address below, ← size]
  refine ⟨member, ?_, ?_, by omega, by exact_mod_cast low, ?_⟩
  · rw [slot]
    omega
  · rw [slot]
    omega
  · exact ((inv.page frame member).bit k low).2 ⟨inside, alive⟩

def emptyFrame : Frame := ⟨false, false, 0, 0, 0, 0, fun _ => false⟩

def newHeap (objSize : Nat) : Option Heap := do
  let mem ← Buddy.twoPages.mem
  let cache ← createJcache objSize 0
  some ⟨⟨⟨mem, []⟩, fun _ => emptyFrame, kernelCodeStart, cache⟩, []⟩

def allocs (objSize : Nat) : Nat -> Option Heap
  | 0 => newHeap objSize
  | count + 1 => do
      let heap ← allocs objSize count
      step heap .alloc

theorem newHeap_start {objSize : Nat} {heap : Heap} (made : newHeap objSize = some heap) :
    Start Buddy.twoPages objSize heap := by
  simp only [newHeap, bind_iff] at made
  obtain ⟨mem, booted, cache, created, same⟩ := made
  cases same
  exact ⟨.start ⟨booted, rfl⟩, ⟨0, created⟩, (by decide : 0x100000 < kernelCodeStart), fun _ _ => rfl, rfl⟩

theorem allocs_reaches {objSize : Nat} {allowed : Heap -> Event -> Prop} (count : Nat) {heap : Heap}
    (may : ∀ heap, Reachable (Start Buddy.twoPages objSize) step allowed heap -> allowed heap .alloc)
    (run : allocs objSize count = some heap) : Reachable (Start Buddy.twoPages objSize) step allowed heap := by
  induction count generalizing heap with
  | zero => exact .start (newHeap_start run)
  | succ count ih =>
    rw [allocs, bind_iff] at run
    obtain ⟨before, earlier, moved⟩ := run
    exact (ih earlier).next (may before (ih earlier)) moved

theorem small_objects_collide : ∃ heap, Reachable (Start Buddy.twoPages 32) step Allowed heap ∧
      heap.live.take 2 = [slot 32 5 64, slot 32 5 64] ∧
      ¬ heap.live.Pairwise (fun left right => left + 32 ≤ right ∨ right + 32 ≤ left) ∧
      slot 32 5 64 ∈ heap.live ∧ step heap (.free (slot 32 5 64)) = none := by
  have outcome : (allocs 32 66).map (fun heap => (heap.live.take 2, (step heap (.free (slot 32 5 64))).isSome)) =
      some ([slot 32 5 64, slot 32 5 64], false) := by decide +kernel
  obtain ⟨heap, run, seen⟩ := map_eq_some_iff.1 outcome
  obtain ⟨twice, stuck⟩ := Prod.mk.inj seen
  have prefixed := twice ▸ take_prefix 2 heap.live
  refine ⟨heap, allocs_reaches 66 (fun _ _ => trivial) run, twice, ?_, prefixed.mem (by simp), by simpa using stuck⟩
  intro apart
  have pair := apart.sublist prefixed.sublist
  simp at pair

theorem live_objects_exclusive_sixtyFour : ∃ heap, allocs 64 2 = some heap ∧ heap.live = [slot 64 5 1, slot 64 5 0] ∧
    heap.live.Pairwise (fun left right => left + 64 ≤ right ∨ right + 64 ≤ left) ∧
      (heap.slabs.frame 5).bits 0 = true := by
  have outcome : (allocs 64 2).map (fun heap => (heap.live, heap.slabs.cache.objSize)) =
      some ([slot 64 5 1, slot 64 5 0], 64) := by decide +kernel
  obtain ⟨heap, run, seen⟩ := map_eq_some_iff.1 outcome
  obtain ⟨live, size⟩ := Prod.mk.inj seen
  have parts := live_objects_exclusive Buddy.twoPages 64 (by decide) heap (allocs_reaches 2 (fun heap reached =>
    ⟨trivial, .inl (by rw [(reached_inv (by decide) reached).1.layout.size]; decide)⟩) run)
  have bit := (parts.2.1 (slot 64 5 0) (by simp [live])).2.2.2.2.2
  rw [objIndex_slot size (by decide) (by decide) (by decide), mapNr_slot (by decide) (by decide) (by decide)] at bit
  exact ⟨heap, run, live, parts.1, bit⟩

end JinyKernel.Slab
