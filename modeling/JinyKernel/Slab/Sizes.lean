import JinyKernel.Slab.Reuse

namespace JinyKernel.Slab

open List Option Run

def cacheSizes : List Nat :=
  [32, 64, 128, 256, 512, 1024, 2048, 3700, pageSize, pageSize * 2, pageSize * 4, pageSize * 8, pageSize * 16,
    pageSize * 32, pageSize * 64, pageSize * 128, pageSize * 256, pageSize * 512, pageSize * 1024]

def predefinedCaches : List Jcache := cacheSizes.filterMap fun objSize => createJcache objSize 0

def predefinedCache (objSize : Nat) : Option Jcache := predefinedCaches.find? fun cache => objSize ≤ cache.objSize

-- The pages of an allocation, or a slot of a slab page, of `size` bytes or more.
def Provides (s : Slabs) (addr size : Nat) : Prop :=
  if pageSize ≤ s.cache.objSize then
    (addr, s.cache.pageOrder) ∈ s.buddy.outstanding ∧ size ≤ pageSize * 2 ^ s.cache.pageOrder
  else ∃ frame ∈ s.pages, ∃ k < s.cache.maxObjPerSlab, addr = slot s.cache.objSize frame k ∧ size ≤ s.cache.objSize ∧
    addr + s.cache.objSize ≤ address frame + pageSize

theorem le_two_pow_logN_iff {n : Nat} (positive : 0 < n) : n ≤ 2 ^ logN n ↔ ∃ k, n = 2 ^ k := by
  have size : 0 < n.size := Nat.size_pos.2 positive
  have low : 2 ^ (n.size - 1) ≤ n := Nat.lt_size.1 (by omega)
  constructor
  · intro fits
    exact ⟨logN n, le_antisymm fits low⟩
  · rintro ⟨k, rfl⟩
    rw [logN, Nat.size_pow, Nat.add_sub_cancel]

variable {objSize : Nat}

theorem createJcache_large {flags : Nat} {cache : Jcache} (large : pageSize ≤ objSize)
    (created : createJcache objSize flags = some cache) :
    cache.objSize = objSize ∧ cache.pageOrder = logN (objSize / pageSize) := by
  rw [createJcache, if_pos large] at created
  cases created
  exact ⟨rfl, rfl⟩

theorem order_covers_iff (large : pageSize ≤ objSize) :
    objSize ≤ pageSize * 2 ^ logN (objSize / pageSize) ↔ ∃ n, objSize = pageSize * 2 ^ n := by
  have positive := Nat.div_pos large (by decide)
  constructor
  · intro fits
    have quotient : objSize / pageSize ≤ 2 ^ logN (objSize / pageSize) := by
      calc objSize / pageSize ≤ pageSize * 2 ^ logN (objSize / pageSize) / pageSize := Nat.div_le_div_right fits
        _ = 2 ^ logN (objSize / pageSize) := Nat.mul_div_cancel_left _ (by decide)
    obtain ⟨k, power⟩ := (le_two_pow_logN_iff positive).1 quotient
    have exactly : logN (objSize / pageSize) = k := by
      rw [power, logN, Nat.size_pow, Nat.add_sub_cancel]
    rw [exactly] at fits
    have whole := Nat.div_mul_le_self objSize pageSize
    rw [power, Nat.mul_comm] at whole
    exact ⟨k, le_antisymm fits whole⟩
  · rintro ⟨k, rfl⟩
    rw [Nat.mul_div_cancel_left _ (by decide), logN, Nat.size_pow, Nat.add_sub_cancel]

theorem SameLayout.trans {first second third : Jcache} (left : SameLayout first second)
    (right : SameLayout second third) : SameLayout first third :=
  ⟨left.1.trans right.1, left.2.1.trans right.2.1, left.2.2.trans right.2.2⟩

section

variable {s next : Slabs} {addr : Nat}

theorem allocLarge_pages (ran : allocLarge s = some (addr, next)) (got : addr ≠ 0) :
    SameLayout next.cache s.cache ∧ (addr, s.cache.pageOrder) ∈ next.buddy.outstanding := by
  simp only [allocLarge, bind_iff] at ran
  obtain ⟨⟨block, buddy⟩, taken, made⟩ := ran
  simp only [Buddy.takePages, bind_iff] at taken
  obtain ⟨⟨found, mem⟩, _, handed⟩ := taken
  cases handed
  split at made
  next zero =>
    cases made
    exact absurd rfl got
  cases made
  exact ⟨⟨rfl, rfl, rfl⟩, by simp⟩

theorem allocObj_small (small : ¬ pageSize ≤ s.cache.objSize) (ran : allocObj s = some (addr, next)) :
    ∃ ready, SameLayout ready.cache s.cache ∧
      (ready = s ∨ s.cache.partialList = [] ∧ ∃ page, getpages s = some (page, ready)) ∧
      (addr = 0 ∧ next = ready ∨ ∃ frame rest, ready.cache.partialList = frame :: rest ∧
        allocFrom ready frame rest = some (addr, next)) := by
  simp only [allocObj, if_neg small] at ran
  cases listed : s.cache.partialList with
  | cons frame rest =>
    simp only [listed, some_bind] at ran
    exact ⟨s, ⟨rfl, rfl, rfl⟩, .inl rfl, .inr ⟨frame, rest, listed, ran⟩⟩
  | nil =>
    simp only [listed, bind_iff, map_eq_some_iff] at ran
    obtain ⟨_, ⟨⟨page, ready⟩, taken, rfl⟩, handed⟩ := ran
    refine ⟨ready, (getpages_lists taken).2.1, .inr ⟨rfl, page, taken⟩, ?_⟩
    cases first : ready.cache.partialList with
    | nil =>
      rw [first] at handed
      cases handed
      exact .inl ⟨rfl, rfl⟩
    | cons frame rest =>
      rw [first] at handed
      exact .inr ⟨frame, rest, rfl, handed⟩

theorem allocObj_layout (ran : allocObj s = some (addr, next)) : SameLayout next.cache s.cache := by
  by_cases large : pageSize ≤ s.cache.objSize
  · simp only [allocObj, if_pos large, allocLarge, bind_iff] at ran
    obtain ⟨_, _, made⟩ := ran
    split at made <;> cases made <;> exact ⟨rfl, rfl, rfl⟩
  · obtain ⟨ready, before, -, ⟨-, rfl⟩ | ⟨frame, rest, -, handed⟩⟩ := allocObj_small large ran
    · exact before
    · exact (allocFrom_lists handed).2.2.1.trans before

theorem freeObj_layout (ran : freeObj s addr = some next) : SameLayout next.cache s.cache := by
  simp only [freeObj, bind_iff] at ran
  obtain ⟨_, _, ran⟩ := ran
  split at ran
  next =>
    simp only [freeLarge, bind_iff] at ran
    obtain ⟨_, _, _, _, _, _, made⟩ := ran
    cases made
    exact ⟨rfl, rfl, rfl⟩
  next =>
    simp only [freeSmall, bind_iff] at ran
    obtain ⟨_, _, _, _, _, _, _, _, done⟩ := ran
    split at done
    next =>
      obtain ⟨freed, emptied, made⟩ := bind_iff.1 done
      simp only [freepages, bind_iff] at emptied
      obtain ⟨_, _, _, _, _, _, same⟩ := emptied
      cases same
      cases made
      exact ⟨rfl, rfl, rfl⟩
    next =>
      cases done
      exact ⟨rfl, rfl, rfl⟩

theorem step_layout {heap after : Heap} {event : Event} (moved : step heap event = some after) :
    SameLayout after.slabs.cache heap.slabs.cache := by
  cases event with
  | alloc =>
    rw [step, bind_iff] at moved
    obtain ⟨⟨addr, slabs⟩, ran, made⟩ := moved
    cases some.inj made
    exact allocObj_layout ran
  | free addr =>
    rw [step, bind_iff] at moved
    obtain ⟨slabs, ran, made⟩ := moved
    cases some.inj made
    exact freeObj_layout ran
  | pages event =>
    rw [step, bind_iff] at moved
    obtain ⟨buddy, _, made⟩ := moved
    cases some.inj made
    exact ⟨rfl, rfl, rfl⟩
  | store frames =>
    cases moved
    exact ⟨rfl, rfl, rfl⟩

theorem reaches_layout {boot : Buddy.Boot} {heap : Heap}
    (reached : Reachable (Start boot objSize) step Allowed heap) :
    ∃ flags made, createJcache objSize flags = some made ∧ SameLayout heap.slabs.cache made := by
  induction reached with
  | start first =>
    obtain ⟨flags, made⟩ := first.cache
    exact ⟨flags, _, made, rfl, rfl, rfl⟩
  | next _ _ moved before =>
    obtain ⟨flags, made, created, layout⟩ := before
    exact ⟨flags, made, created, (step_layout moved).trans layout⟩

end

theorem createJcache_small {flags : Nat} {cache : Jcache} (small : objSize < pageSize)
    (created : createJcache objSize flags = some cache) :
    cache.objSize = objSize ∧ cache.maxObjPerSlab = capacity objSize ∧ 0 < objSize := by
  rw [createJcache, if_neg (by omega)] at created
  split_ifs at created with fits
  cases created
  exact ⟨rfl, rfl, by omega⟩

theorem reaches_inv {boot : Buddy.Boot} {heap : Heap} (small : objSize < pageSize) (many : 63 ≤ objSize)
    (reached : Reachable (Start boot objSize) step Allowed heap) :
    SlabInv boot.Released objSize heap.slabs heap.live := by
  induction reached with
  | start first => exact first.inv small
  | @next before after event _ may moved inv =>
    have left : BitLeft before event := by
      cases event with
      | alloc => exact .inl (inv.layout.size ▸ many)
      | free | pages | store => trivial
    obtain ⟨other, done, sound⟩ := step_spec inv may left
    cases done.symm.trans moved
    exact sound

theorem small_object_provided {boot : Buddy.Boot} {heap : Heap} (small : objSize < pageSize)
    (reached : Reachable (Start boot objSize) step Allowed heap) {addr : Nat} {next : Slabs}
    (ran : allocObj heap.slabs = some (addr, next)) (got : addr ≠ 0) : Provides next addr objSize := by
  obtain ⟨flags, made, created, layout⟩ := reaches_layout reached
  obtain ⟨size, count, positive⟩ := createJcache_small small created
  have sizeHere := layout.1.trans size
  obtain ⟨ready, before, origin, ⟨zero, -⟩ | ⟨frame, rest, first, handed⟩⟩ := allocObj_small (by omega) ran
  · exact absurd zero got
  obtain ⟨-, -, after, located, lists⟩ := allocFrom_lists handed
  have sizeReady := before.1.trans sizeHere
  have sizeNext := after.1.trans sizeReady
  have countNext := after.2.2.trans (before.2.2.trans (layout.2.2.trans count))
  have inside : findFirstZeroBit (ready.frame frame).bits bitmapBits < capacity objSize := by
    have bound := findFirstZeroBit_bound (ready.frame frame).bits
    by_cases many : 63 ≤ objSize
    · have inv := reaches_inv small many reached
      have sound : SlabInv boot.Released objSize ready heap.live := by
        rcases origin with rfl | ⟨fresh, page, taken⟩
        · exact inv
        · obtain ⟨_, _, same, sound, _⟩ := getpages_spec inv fresh
          cases same.symm.trans taken
          exact sound
      obtain ⟨k, low, below, clear⟩ := sound.bitLeft (first ▸ mem_cons_self) (.inl (by omega))
      have least := (findFirstZeroBit_le low clear).1
      rw [sizeReady] at below
      omega
    · -- more slots than bits
      have more : 64 < capacity objSize := (Nat.le_div_iff_mul_le positive).2 (by simp only [pageSize, headerSize]; omega)
      have bits : bitmapBits = 64 := rfl
      omega
  have ends := slot_end_le inside
  have member : frame ∈ next.pages := by
    rcases lists with ⟨same, _⟩ | ⟨_, longer, _⟩
    · exact mem_append_left _ (by simp [same, first])
    · exact mem_append_right _ (by simp [longer])
  rw [Provides, if_neg (by omega), sizeNext, countNext]
  rw [sizeReady] at located
  refine ⟨frame, member, _, inside, located, le_refl _, ?_⟩
  rw [located, slot]
  omega

theorem large_object_provides {s next : Slabs} {addr : Nat} (large : pageSize ≤ s.cache.objSize)
    (ran : allocObj s = some (addr, next)) (got : addr ≠ 0) (size : Nat) :
    Provides next addr size ↔ size ≤ pageSize * 2 ^ s.cache.pageOrder := by
  rw [allocObj, if_pos large] at ran
  obtain ⟨layout, pages⟩ := allocLarge_pages ran got
  rw [Provides, if_pos (by rw [layout.1]; exact large), layout.2.1]
  exact and_iff_right pages

theorem predefinedCaches_sized : ∀ cache ∈ predefinedCaches,
    cache.objSize < pageSize ∨ cache.objSize ≤ pageSize * 2 ^ logN (cache.objSize / pageSize) := by
  decide +kernel

theorem large_objects_fit_iff (objSize flags : Nat) (cache : Jcache) (large : pageSize ≤ objSize)
    (created : createJcache objSize flags = some cache) :
    (objSize ≤ pageSize * 2 ^ cache.pageOrder ↔ ∃ n, objSize = pageSize * 2 ^ n) ∧
    (∀ (s next : Slabs) (addr : Nat), SameLayout s.cache cache -> allocObj s = some (addr, next) -> addr ≠ 0 ->
      (Provides next addr objSize ↔ ∃ n, objSize = pageSize * 2 ^ n)) ∧
    ∀ (size : Nat) (chosen : Jcache), predefinedCache size = some chosen ->
      ∀ (boot : Buddy.Boot) (heap : Heap), Reachable (Start boot chosen.objSize) step Allowed heap ->
        ∀ (addr : Nat) (next : Slabs), allocObj heap.slabs = some (addr, next) -> addr ≠ 0 ->
          Provides next addr size := by
  obtain ⟨sized, order⟩ := createJcache_large large created
  refine ⟨?_, fun s next addr layout ran got => ?_, fun size chosen found boot heap reached addr next ran got => ?_⟩
  · rw [order]
    exact order_covers_iff large
  · rw [large_object_provides (by rw [layout.1, sized]; exact large) ran got, layout.2.1, order]
    exact order_covers_iff large
  rw [predefinedCache] at found
  have passes := find?_some found
  have enough := of_decide_eq_true passes
  have kept := predefinedCaches_sized chosen (mem_of_find?_eq_some found)
  by_cases small : chosen.objSize < pageSize
  · have provided := small_object_provided small reached ran got
    have layout := allocObj_layout ran
    obtain ⟨_, made, remade, same⟩ := reaches_layout reached
    obtain ⟨again, _, _⟩ := createJcache_small small remade
    have sizeNext : next.cache.objSize = chosen.objSize := layout.1.trans (same.1.trans again)
    rw [Provides, if_neg (by omega)] at provided ⊢
    obtain ⟨frame, member, k, inside, located, _, ends⟩ := provided
    exact ⟨frame, member, k, inside, located, by omega, ends⟩
  · obtain ⟨_, made, remade, same⟩ := reaches_layout reached
    obtain ⟨again, orderHere⟩ := createJcache_large (by omega) remade
    rw [large_object_provides (by rw [same.1, again]; omega) ran got, same.2.1, orderHere]
    exact enough.trans (kept.resolve_left small)

theorem large_objects_fit_iff_two : ∃ cache, createJcache (pageSize * 2) 0 = some cache ∧
    (pageSize * 2 ≤ pageSize * 2 ^ cache.pageOrder ↔ ∃ n, pageSize * 2 = pageSize * 2 ^ n) :=
  ⟨_, rfl, (large_objects_fit_iff (pageSize * 2) 0 _ (by decide) rfl).1⟩

theorem three_pages_in_two : ∃ heap addr next, newHeap (pageSize * 3) = some heap ∧
    heap.slabs.cache.objSize = pageSize * 3 ∧ allocObj heap.slabs = some (addr, next) ∧ addr = address 4 ∧
    next.buddy.outstanding = [(addr, 1)] ∧ ¬ Provides next addr (pageSize * 3) := by
  have outcome : (newHeap (pageSize * 3)).any (fun heap => heap.slabs.cache.objSize = pageSize * 3 ∧
      heap.slabs.cache.pageOrder = 1 ∧ (allocObj heap.slabs).any fun handed =>
        handed.1 = address 4 ∧ handed.2.buddy.outstanding = [(handed.1, 1)]) = true := by
    decide +kernel
  obtain ⟨heap, made, size, order, handed⟩ := holds_of_any outcome
  obtain ⟨⟨addr, next⟩, ran, taken⟩ := holds_of_any handed
  obtain ⟨located, pages⟩ : addr = address 4 ∧ next.buddy.outstanding = [(addr, 1)] := taken
  have got : addr ≠ 0 := by
    rw [located]
    decide
  refine ⟨heap, addr, next, made, size, ran, located, pages, ?_⟩
  rw [large_object_provides (by rw [size]; decide) ran got, order]
  decide

end JinyKernel.Slab
