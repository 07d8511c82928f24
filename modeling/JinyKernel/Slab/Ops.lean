import JinyKernel.Slab.Pages

namespace JinyKernel.Slab

open Dyadic Function List Run

structure Layout (objSize cachep : Nat) (cache : Jcache) : Prop where
  size : cache.objSize = objSize
  positive : 0 < cache.objSize
  fits : cache.objSize ≤ pageSize - headerSize
  order : cache.pageOrder = 0
  count : cache.maxObjPerSlab = capacity cache.objSize
  pointer : 0x100000 < cachep

structure PageInv (page : Frame) (cachep objSize : Nat) (live : List Nat) (frame : Nat) : Prop where
  slab : page.slab = true
  small : page.largePage = false
  owner : page.cachep = cachep
  magic0 : page.magic0 = jslabMagic
  magic1 : page.magic1 = jslabMagic
  bit : ∀ k < bitmapBits, (page.bits k = true ↔ k < capacity objSize ∧ slot objSize frame k ∈ live)

def Slabs.pages (s : Slabs) : List Nat := s.cache.partialList ++ s.cache.fullList

structure SlabInv (region : Nat -> Prop) (objSize : Nat) (s : Slabs) (live : List Nat) : Prop where
  layout : Layout objSize s.cachep s.cache
  buddy : Buddy.StateInv region s.buddy
  nodup : s.pages.Nodup
  below : ∀ frame ∈ s.pages, frame < frameLimit
  held : ∀ frame ∈ s.pages, (address frame, 0) ∈ s.buddy.outstanding
  page : ∀ frame ∈ s.pages, PageInv (s.frame frame) s.cachep s.cache.objSize live frame
  room : ∀ frame ∈ s.cache.partialList, capacity s.cache.objSize ≤ bitmapBits ->
    ∃ k < capacity s.cache.objSize, (s.frame frame).bits k = false
  object : ∀ addr ∈ live, ∃ frame ∈ s.pages, ∃ k < bitmapBits,
    k < capacity s.cache.objSize ∧ addr = slot s.cache.objSize frame k
  once : live.Nodup
  spare : ∀ frame, (∀ b ∈ s.buddy.held, ¬ b.Holds frame) -> (s.frame frame).largePage = false

theorem mapFrames_zero (frames : Nat -> Frame) (frame : Nat) (f : Frame -> Frame) :
    mapFrames frames frame 0 f = update frames frame (f (frames frame)) := by
  funext other
  by_cases here : other = frame
  · subst here
    simp [mapFrames]
  · have outside : ¬ (frame ≤ other ∧ other < frame + 2 ^ 0) := by
      omega
    rw [mapFrames, if_neg outside, update_of_ne here]

theorem PageInv.sane {page : Frame} {cachep objSize frame : Nat} {live : List Nat}
    (inv : PageInv page cachep objSize live frame) (pointer : 0x100000 < cachep) : sanityCheck page cachep = true := by
  simp [sanityCheck, inv.magic0, inv.magic1, pointer]

section

variable {page : Frame} {cachep objSize frame other index : Nat} {live : List Nat}

theorem PageInv.elsewhere {live' : List Nat} (inv : PageInv page cachep objSize live other)
    (same : ∀ addr, addr ≠ slot objSize frame index -> (addr ∈ live' ↔ addr ∈ live)) (different : other ≠ frame)
    (below : frame < frameLimit) (below' : other < frameLimit) (positive : 0 < objSize)
    (inside : index < capacity objSize) : PageInv page cachep objSize live' other where
  __ := inv
  bit k small := by
    rw [inv.bit k small]
    refine and_congr_right fun inside' => (same _ fun equal => ?_).symm
    exact different (slot_injective below' below positive inside' inside equal).1

theorem PageInv.write {live' : List Nat} {bits : Nat -> Bool} {taken : Bool}
    (inv : PageInv page cachep objSize live frame)
    (written : ∀ k < bitmapBits, bits k = if k = index then taken else page.bits k)
    (here : taken = true ↔ slot objSize frame index ∈ live')
    (same : ∀ addr, addr ≠ slot objSize frame index -> (addr ∈ live' ↔ addr ∈ live))
    (below : frame < frameLimit) (positive : 0 < objSize) (inside : index < capacity objSize) :
    PageInv { page with bits := bits } cachep objSize live' frame where
  __ := inv
  bit k small := by
    change bits k = true ↔ _
    rw [written k small]
    by_cases chosen : k = index
    · subst chosen
      rw [if_pos rfl, here]
      exact (and_iff_right inside).symm
    · rw [if_neg chosen, inv.bit k small]
      refine and_congr_right fun inside' => (same _ fun equal => ?_).symm
      exact chosen (slot_injective below below positive inside' inside equal).2

end

theorem clearObject_bitmap (bits : Nat -> Bool) (index objSize : Nat) {k : Nat} (inside : k < bitmapBits) :
    clearObject bits index objSize k = bits k := by
  rw [clearObject, if_neg]
  omega

def Slabs.written (s : Slabs) (frame : Nat) (bits : Nat -> Bool) (cache : Jcache) : Slabs :=
  { s with frame := update s.frame frame { s.frame frame with bits := bits }, cache := cache }

@[simp] theorem Slabs.written_here (s : Slabs) (frame : Nat) (bits : Nat -> Bool) (cache : Jcache) :
    (s.written frame bits cache).frame frame = { s.frame frame with bits := bits } :=
  update_self ..

theorem Slabs.written_elsewhere (s : Slabs) {frame other : Nat} (bits : Nat -> Bool) (cache : Jcache)
    (different : other ≠ frame) : (s.written frame bits cache).frame other = s.frame other :=
  update_of_ne different ..

variable {region : Nat -> Prop} {objSize : Nat} {s : Slabs} {live : List Nat} {frame : Nat}

variable (inv : SlabInv region objSize s live)

include inv

theorem SlabInv.small : ¬ pageSize ≤ s.cache.objSize := by
  have fits := inv.layout.fits
  simp only [pageSize, headerSize] at *
  omega

theorem SlabInv.write (taken : Bool) (member : frame ∈ s.pages) {index : Nat}
    (low : index < bitmapBits) (inside : index < capacity s.cache.objSize) {live' : List Nat} {bits : Nat -> Bool}
    (written : ∀ k < bitmapBits, bits k = if k = index then taken else (s.frame frame).bits k)
    (here : taken = true ↔ slot s.cache.objSize frame index ∈ live')
    (same : ∀ addr, addr ≠ slot s.cache.objSize frame index -> (addr ∈ live' ↔ addr ∈ live)) (once : live'.Nodup)
    {cache : Jcache} (layout : Layout objSize s.cachep cache) (size : cache.objSize = s.cache.objSize)
    (perm : (cache.partialList ++ cache.fullList).Perm s.pages)
    (room : ∀ other ∈ cache.partialList, capacity s.cache.objSize ≤ bitmapBits ->
      ∃ k < capacity s.cache.objSize, ((s.written frame bits cache).frame other).bits k = false) :
    SlabInv region objSize (s.written frame bits cache) live' where
  layout := layout
  buddy := inv.buddy
  nodup := perm.nodup_iff.2 inv.nodup
  below other belongs := inv.below other (perm.mem_iff.1 belongs)
  held other belongs := inv.held other (perm.mem_iff.1 belongs)
  page other belongs := by
    have belongs' := perm.mem_iff.1 belongs
    have positive := inv.layout.positive
    rw [show (s.written frame bits cache).cache.objSize = s.cache.objSize from size]
    by_cases chosen : other = frame
    · subst chosen
      rw [Slabs.written_here]
      exact (inv.page other belongs').write written here same (inv.below other belongs') positive inside
    · rw [Slabs.written_elsewhere s bits cache chosen]
      exact (inv.page other belongs').elsewhere same chosen (inv.below frame member) (inv.below other belongs')
        positive inside
  room := by simpa only [Slabs.written, size] using room
  object addr alive := by
    simp only [Slabs.written, size]
    by_cases chosen : addr = slot s.cache.objSize frame index
    · exact ⟨frame, perm.mem_iff.2 member, index, low, inside, chosen⟩
    · obtain ⟨other, belongs, rest⟩ := inv.object addr ((same addr chosen).1 alive)
      exact ⟨other, perm.mem_iff.2 belongs, rest⟩
  once := once
  spare other free := by
    have before := inv.spare other free
    by_cases chosen : other = frame
    · subst chosen
      rw [Slabs.written_here]
      exact before
    · rw [Slabs.written_elsewhere s bits cache chosen]
      exact before

theorem allocFrom_spec {rest : List Nat} (first : s.cache.partialList = frame :: rest)
    {k : Nat} (low : k < bitmapBits) (inside : k < capacity s.cache.objSize) (clear : (s.frame frame).bits k = false) :
    ∃ addr next, allocFrom s frame rest = some (addr, next) ∧ addr ≠ 0 ∧ SlabInv region objSize next (addr :: live) := by
  have member : frame ∈ s.pages := by simp [Slabs.pages, first]
  have sane := (inv.page frame member).sane inv.layout.pointer
  obtain ⟨least, zero⟩ := findFirstZeroBit_le low clear
  set index := findFirstZeroBit (s.frame frame).bits bitmapBits with chosen
  have low' : index < bitmapBits := least.trans_lt low
  have inside' : index < capacity s.cache.objSize := least.trans_lt inside
  have unused : slot s.cache.objSize frame index ∉ live := by
    intro alive
    have set := ((inv.page frame member).bit index low').2 ⟨inside', alive⟩
    rw [zero] at set
    cases set
  have notNull : slot s.cache.objSize frame index ≠ 0 := by
    rw [slot, headerSize]
    omega
  simp only [allocFrom, sane, ← chosen, guard, if_true]
  refine ⟨_, _, rfl, notNull, ?_⟩
  apply inv.write true member low' inside'
  · intro j small
    rw [clearObject_bitmap _ _ _ small, update_apply]
  · simp [slot]
  · intro addr different
    exact mem_cons.trans (or_iff_right different)
  · exact nodup_cons.2 ⟨unused, inv.once⟩
  · exact { inv.layout with }
  · rfl
  · rw [Slabs.pages, first]
    split_ifs
    · exact perm_middle
    · rfl
  intro other listed few
  by_cases kept : other = frame
  · -- The page is still on the partial list, so the second search found a bit below the limit.
    subst kept
    have alone : other ∉ rest := by
      have nodup := inv.nodup
      rw [Slabs.pages, first, cons_append, nodup_cons, mem_append] at nodup
      exact fun again => nodup.1 (.inl again)
    split_ifs at listed with full
    · exact absurd listed alone
    have below : findFirstZeroBit (update (s.frame other).bits index true) bitmapBits <
        capacity s.cache.objSize := by
      rw [inv.layout.count, decide_eq_true_iff] at full
      omega
    refine ⟨_, below, ?_⟩
    rw [Slabs.written_here]
    change clearObject _ _ _ _ = false
    rw [clearObject_bitmap _ _ _ (below.trans_le few)]
    exact findFirstZeroBit_clear (below.trans_le few)
  · have before : other ∈ s.cache.partialList := by
      split_ifs at listed
      · exact first ▸ mem_cons_of_mem _ listed
      · exact listed
    rw [Slabs.written_elsewhere s _ _ kept]
    exact inv.room other before few

theorem SlabInv.erase_pages :
    s.cache.partialList.erase frame ++ s.cache.fullList.erase frame = s.pages.erase frame := by
  have nodup := inv.nodup
  rw [Slabs.pages, nodup_append] at nodup
  rw [Slabs.pages, erase_append]
  split_ifs with listed
  · rw [erase_of_not_mem fun again => nodup.2.2 _ listed _ again rfl]
  · rw [erase_of_not_mem listed]

theorem SlabInv.holds_page (member : frame ∈ s.pages) (other : Nat) :
    (Buddy.allocation (address frame, 0)).Holds other ↔ other = frame := by
  rw [Buddy.allocation, mapNr_address (inv.below frame member)]
  simp only [Block.Holds, Block.size, pow_zero]
  omega

theorem freepages_spec (member : frame ∈ s.pages)
    (empty : emptyBitmap (s.frame frame).bits = true) :
    ∃ next, freepages s frame = some next ∧ SlabInv region objSize next live := by
  have order := inv.layout.order
  have own := inv.page frame member
  obtain ⟨buddy, given, after, outstanding⟩ := Buddy.givePages_spec inv.buddy (inv.held frame member)
  have kept (other : Nat) (belongs : other ∈ s.pages.erase frame) : other ≠ frame ∧ other ∈ s.pages :=
    inv.nodup.mem_erase_iff.1 belongs
  simp only [freepages, empty, order, given, guard, if_true, own.slab, pow_zero, range_one, all_cons,
    all_nil, Nat.add_zero, Bool.and_true, mapFrames_zero]
  refine ⟨_, rfl, { inv.layout with order := rfl },
    after, ?_, ?_, ?_, ?_, ?_, ?_, inv.once, ?_⟩ <;> simp [Slabs.pages, inv.erase_pages]
  · exact inv.nodup.erase frame
  · exact fun other belongs => inv.below other (kept other belongs).2
  · intro other belongs
    obtain ⟨different, belongs⟩ := kept other belongs
    rw [outstanding, mem_erase_of_ne]
    · exact inv.held other belongs
    intro same
    have frames := congrArg (fun entry : Nat × Nat => mapNr entry.1) same
    simp only [mapNr_address (inv.below other belongs), mapNr_address (inv.below frame member)] at frames
    exact different frames
  · intro other belongs
    obtain ⟨different, belongs⟩ := kept other belongs
    rw [update_of_ne different]
    exact inv.page other belongs
  · intro other listed
    have different : other ≠ frame := by
      have belongs := inv.erase_pages ▸ mem_append_left _ listed
      exact (kept other belongs).1
    rw [update_of_ne different]
    exact inv.room other (mem_of_mem_erase listed)
  · intro addr alive
    obtain ⟨other, belongs, k, low, inside, located⟩ := inv.object addr alive
    refine ⟨other, inv.nodup.mem_erase_iff.2 ⟨?_, belongs⟩, k, low, inside, located⟩
    -- The page that goes has no bit set, so no live object is in it.
    rintro rfl
    have set := (own.bit k low).2 ⟨inside, located ▸ alive⟩
    rw [(emptyBitmap_iff _).1 empty k low] at set
    cases set
  intro other free
  by_cases here : other = frame
  · subst here
    rw [update_self]
    exact own.small
  rw [update_of_ne here]
  apply inv.spare
  intro b held
  obtain ⟨entry, listed, rfl⟩ := mem_map.1 held
  by_cases gone : entry = (address frame, 0)
  · rw [gone, inv.holds_page member]
    exact here
  · apply free
    rw [Buddy.State.held, outstanding]
    exact mem_map_of_mem ((mem_erase_of_ne gone).2 listed)

theorem SlabInv.counted (total frees : Int) :
    SlabInv region objSize { s with cache := { s.cache with statTotalObjs := total, statFrees := frees } } live :=
  { inv with layout := { inv.layout with } }

theorem freeObj_spec {addr : Nat} (alive : addr ∈ live) :
    ∃ next, freeObj s addr = some next ∧ SlabInv region objSize next (live.erase addr) := by
  obtain ⟨frame, member, k, low, inside, rfl⟩ := inv.object addr alive
  have own := inv.page frame member
  have positive := inv.layout.positive
  have sane := own.sane inv.layout.pointer
  have set := (own.bit k low).2 ⟨inside, alive⟩
  have located := mapNr_slot (inv.below frame member) positive inside
  have index := objIndex_slot rfl (inv.below frame member) positive inside
  have range : (0 : Int) ≤ k ∧ (k : Int) < bitmapBits := ⟨Int.natCast_nonneg k, by exact_mod_cast low⟩
  have cleared : SlabInv region objSize (s.written frame (update (s.frame frame).bits k false) s.cache)
      (live.erase (slot s.cache.objSize frame k)) := by
    apply inv.write false member low inside
    · exact fun j _ => update_apply ..
    · simp [inv.once.mem_erase_iff]
    · exact fun addr => mem_erase_of_ne
    · exact inv.once.erase _
    · exact inv.layout
    · rfl
    · rfl
    intro other listed few
    by_cases here : other = frame
    · subst here
      exact ⟨k, inside, by simp⟩
    · rw [Slabs.written_elsewhere s _ _ here]
      exact inv.room other listed few
  have sane' : sanityCheck (s.frame frame) (s.frame frame).cachep = true := own.owner.symm ▸ sane
  rw [freeObj, located, guard_bind own.slab, if_neg (by simp [own.small]), freeSmall, located,
    guard_bind own.owner, guard_bind sane', index, guard_bind range, Int.toNat_natCast, guard_bind set]
  by_cases last : emptyBitmap (update (s.frame frame).bits k false) = true
  · obtain ⟨next, freed, after⟩ := freepages_spec cleared member (by rw [Slabs.written_here]; exact last)
    refine ⟨_, ?_, after.counted (next.cache.statTotalObjs - 1) (next.cache.statFrees + 1)⟩
    rw [Slabs.written] at freed
    simp only [if_pos last, freed]
    rfl
  · refine ⟨_, ?_, cleared.counted (s.cache.statTotalObjs - 1) (s.cache.statFrees + 1)⟩
    simp only [if_neg last]
    rfl

theorem SlabInv.with_buddy {buddy : Buddy.State} (sound : Buddy.StateInv region buddy)
    (held : ∀ frame ∈ s.pages, (address frame, 0) ∈ buddy.outstanding)
    (spare : ∀ frame, (∀ b ∈ buddy.held, ¬ b.Holds frame) -> (s.frame frame).largePage = false) :
    SlabInv region objSize { s with buddy := buddy } live :=
  { inv with buddy := sound, held := held, spare := spare }

theorem SlabInv.taken {buddy : Buddy.State} (sound : Buddy.StateInv region buddy)
    {entry : Nat × Nat} (outstanding : buddy.outstanding = entry :: s.buddy.outstanding) :
    SlabInv region objSize { s with buddy := buddy } live := by
  apply inv.with_buddy sound
  · intro frame member
    rw [outstanding]
    exact mem_cons_of_mem _ (inv.held frame member)
  intro frame free
  apply inv.spare
  intro b held
  apply free
  rw [Buddy.State.held, outstanding, map_cons]
  exact mem_cons_of_mem _ held

theorem SlabInv.capacity_pos : 0 < capacity s.cache.objSize :=
  Nat.div_pos inv.layout.fits inv.layout.positive

theorem SlabInv.attach {frame : Nat} (below : frame < frameLimit)
    (held : (address frame, 0) ∈ s.buddy.outstanding) (fresh : frame ∉ s.pages)
    (ordinary : (s.frame frame).largePage = false) (total : Int) :
    SlabInv region objSize { s with
      frame := update s.frame frame { attachSlab (s.frame frame) s.cachep with slab := true }
      cache := { s.cache with partialList := frame :: s.cache.partialList, statTotalPages := total } } live := by
  have positive := inv.layout.positive
  have others (other : Nat) (member : other ∈ s.pages) : other ≠ frame := fun same => fresh (same ▸ member)
  refine ⟨{ inv.layout with positive := positive }, inv.buddy,
    nodup_cons.2 ⟨fresh, inv.nodup⟩, forall_mem_cons.2 ⟨below, inv.below⟩,
    forall_mem_cons.2 ⟨held, inv.held⟩, forall_mem_cons.2 ⟨?_, ?_⟩, forall_mem_cons.2 ⟨?_, ?_⟩, ?_,
    inv.once, ?_⟩
  · simp only [update_self]
    refine ⟨rfl, ordinary, rfl, rfl, rfl, fun k low => ?_⟩
    refine iff_of_false (by simp [attachSlab, low]) ?_
    rintro ⟨inside, alive⟩
    obtain ⟨other, member, j, -, inside', located⟩ := inv.object _ alive
    exact others other member (slot_injective below (inv.below other member) positive inside inside' located).1.symm
  · intro other member
    simp only [update_of_ne (others other member)]
    exact inv.page other member
  · intro _
    exact ⟨0, inv.capacity_pos, by simp [attachSlab, bitmapBits]⟩
  · intro other listed few
    simp only [update_of_ne (others other (mem_append_left _ listed))]
    exact inv.room other listed few
  · intro addr alive
    obtain ⟨other, member, rest⟩ := inv.object addr alive
    exact ⟨other, mem_cons_of_mem _ member, rest⟩
  intro other free
  by_cases here : other = frame
  · subst here
    simp only [update_self]
    exact ordinary
  · simp only [update_of_ne here]
    exact inv.spare other free

theorem getpages_spec (unlisted : s.cache.partialList = []) :
    ∃ addr next, getpages s = some (addr, next) ∧ SlabInv region objSize next live ∧
      ∀ frame ∈ next.cache.partialList, (next.frame frame).bits 0 = false := by
  obtain ⟨addr, buddy, took, sound, refused | granted⟩ := Buddy.takePages_spec inv.buddy s.cache.flags 0
  · obtain ⟨rfl, same⟩ := refused
    refine ⟨0, { s with buddy := buddy }, ?_, ?_, ?_⟩
    · simp [getpages, inv.layout.order, took]
    · apply inv.with_buddy sound
      · simpa [same] using inv.held
      · simpa [Buddy.State.held, same] using inv.spare
    · simp [unlisted]
  obtain ⟨notNull, outstanding⟩ := granted
  have entry : (addr, 0) ∈ buddy.outstanding := by simp [outstanding]
  have below := sound.below entry
  have located := sound.direct _ entry
  -- The frames handed out before are apart from the new one.
  have apart : ∀ b ∈ s.buddy.held, ¬ b.Holds (mapNr addr) := by
    have pairs := sound.held_apart
    rw [Buddy.State.held, outstanding, map_cons, pairwise_cons] at pairs
    intro b held
    exact (pairs.1 b held).not_holds (Buddy.allocation (addr, 0)).holds_start
  have fresh : mapNr addr ∉ s.pages := by
    intro member
    exact apart _ (mem_map_of_mem (inv.held _ member)) ((inv.holds_page member _).2 rfl)
  have before := inv.taken sound outstanding
  refine ⟨addr, _, ?_, before.attach below (located ▸ entry) fresh (inv.spare _ apart) (s.cache.statTotalPages + 1),
    ?_⟩
  · simp [getpages, inv.layout.order, took, notNull, mapFrames_zero]
  · simp [unlisted, attachSlab, bitmapBits]

end JinyKernel.Slab
