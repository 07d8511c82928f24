import JinyKernel.Paging.Copy
import JinyKernel.Shared.Run

namespace JinyKernel.Paging

open Function List Option Radix

-- Bits 13 to 20 of a 2 MB entry are reserved: the processor faults when one is set.
def backing (addr level entry : Nat) : Option Nat :=
  if level = 1 then some (frameOf entry)
  else if frameOf entry % 512 < 2 then some (frameOf entry / 512 * 512 + tableIndex addr 1)
  else none

variable (entries : List Nat)

variable (mem : Nat -> Nat -> Nat)

def userLeaf (root addr : Nat) : Option (Nat × Nat) :=
  leafAt (userFormat entries) mem (tableIndex addr) 4 root

def translate (root addr : Nat) : Option (Nat × Nat) := do
  let (level, entry) ← userLeaf entries mem root addr
  let frame ← backing addr level entry
  some (level, frame)

structure Fresh (src : Nat) (pool : List Nat) : Prop where
  distinct : pool.Nodup
  apart : ∀ frame ∈ pool, ¬ UserReaches entries mem 4 src frame
  outside : ∀ frame ∈ pool, frame * pageSize ∉ entries ∧ frame * pageSize ≠ bootTable

structure Isolated (pc : PcRegion) (entries : List Nat) (before after : Nat -> Nat -> Nat) (src dest : Nat) : Prop where
  mapped : ∀ addr level frame, translate entries before src addr = some (level, frame) ->
    ∃ copy, translate entries after dest addr = some (level, copy) ∧ ∀ word < 512, after copy word = before frame word
  apart : ∀ addr level frame, translate entries after dest addr = some (level, frame) -> pc.frames frame = false ->
    ¬ UserReaches entries before 4 src frame

-- What is page cache to the code, as the 2 MB pages are, lies in the page cache.
def Copyable (pc : PcRegion) (entries : List Nat) (mem : Nat -> Nat -> Nat) (src : Nat) : Prop :=
  ∀ addr level entry frame, userLeaf entries mem src addr = some (level, entry) ->
    backing addr level entry = some frame ->
    (level = 2 -> pc.isPcPaddr (physAddr entry) = true) ∧
    (pc.isPcPaddr (physAddr entry) = true -> pc.frames frame = true)

section

variable {entries : List Nat} {level index entry nv : Nat}

theorem present_copy (nv entry : Nat) : present (nv * pageSize + entry % pageSize) = present entry := by
  simp only [present, pageSize]
  congr 1
  apply propext
  omega

theorem isLeaf_copy (level nv entry : Nat) : isLeaf level (nv * pageSize + entry % pageSize) = isLeaf level entry := by
  have same : (nv * pageSize + entry % pageSize) / 128 % 2 = entry / 128 % 2 := by
    simp only [pageSize]
    omega
  simp [isLeaf, ps, same]

theorem read_copy_page (isPresent : present entry = true) (leaf : isLeaf level entry = true) :
    (userFormat entries).read level index (nv * pageSize + entry % pageSize) = .leaf := by
  simp [userFormat, present_copy, isLeaf_copy, isPresent, leaf]

theorem read_copy_table (inner : isLeaf level entry = false)
    (outside : nv * pageSize ∉ entries ∧ nv * pageSize ≠ bootTable) :
    (userFormat entries).read level index (nv * pageSize + 7) = .link nv := by
  have frame := frameOf_link nv 7 (by decide)
  have isPresent : present (nv * pageSize + 7) = true := present_copy nv 7
  have small : ps (nv * pageSize + 7) = false := decide_eq_false (by
    simp only [pageSize]
    omega)
  have high : level ≠ 1 := by
    rintro rfl
    simp [isLeaf] at inner
  have user : kernelEntry entries level index (nv * pageSize + 7) = false := by
    rw [← Bool.not_eq_true, kernelEntry_iff, physAddr, ← frameOf, frame]
    rintro ⟨-, ⟨-, boot⟩ | linked⟩
    · exact outside.2 boot
    · exact outside.1 (by simpa [checkKernelPtableEntry] using linked)
  simp [userFormat, isPresent, isLeaf, small, high, user, frame]

theorem read_leaf_iff : (userFormat entries).read level index entry = .leaf ↔
    present entry = true ∧ isLeaf level entry = true := by
  simp only [userFormat]
  cases present entry <;> cases isLeaf level entry <;> cases kernelEntry entries level index entry <;> simp

theorem read_zero : (userFormat entries).read level index 0 = .empty := by
  simp [userFormat, present]

theorem read_kernel (inner : isLeaf level entry = false) (kept : kernelEntry entries level index entry = true) :
    (userFormat entries).read level index entry = .empty := by
  simp [userFormat, inner, kept]

theorem isLeaf_level (leaf : isLeaf level entry = true) : level = 1 ∨ level = 2 ∧ ps entry = true := by
  simp only [isLeaf, Bool.or_eq_true, Bool.and_eq_true, decide_eq_true_eq] at leaf
  tauto

end

inductive LeafCopied (pc : PcRegion) (before after : Nat -> Nat -> Nat) (fresh : List Nat) :
    Nat × Nat -> Nat × Nat -> Prop where
  | shared (level entry : Nat) (cached : pc.isPcPaddr (physAddr entry) = true) :
      LeafCopied pc before after fresh (level, entry) (level, entry)
  | page (level entry nv : Nat) (anonymous : pc.isPcPaddr (physAddr entry) = false) (taken : nv ∈ fresh)
      (contents : after nv = before (frameOf entry)) :
      LeafCopied pc before after fresh (level, entry) (level, nv * pageSize + entry % pageSize)

section

variable {pc : PcRegion} {entries fresh : List Nat} {before after : Nat -> Nat -> Nat} {level src dest addr entry : Nat}

theorem Copied.leafAt {path : Nat -> Nat} (inside : ∀ level, path level < 512)
    (outside : ∀ nv ∈ fresh, nv * pageSize ∉ entries ∧ nv * pageSize ≠ bootTable)
    (copied : Copied pc entries before after fresh level src dest) (built : Built entries before level src) :
    Option.Rel (LeafCopied pc before after fresh) (leafAt (userFormat entries) before path level src)
      (leafAt (userFormat entries) after path level dest) := by
  induction level generalizing src dest with
  | zero => exact .none
  | succ level ih =>
    obtain ⟨entryBuilt, belowBuilt⟩ := built (path (level + 1)) (inside _)
    simp only [leafAt]
    cases copied (path (level + 1)) (inside _) with
    | empty none blank =>
      rw [none, blank, read_zero]
      exact .none
    | shared used leaf cached same =>
      rw [same, read_leaf_iff.2 ⟨(entryBuilt used (not_leaf_kernel leaf)).1, leaf⟩]
      exact .some (.shared _ _ cached)
    | page used leaf anonymous nv taken same contents =>
      have isPresent := (entryBuilt used (not_leaf_kernel leaf)).1
      rw [same, read_leaf_iff.2 ⟨isPresent, leaf⟩, read_copy_page isPresent leaf]
      exact .some (.page _ _ nv anonymous taken contents)
    | kernel used inner kept same =>
      rw [read_kernel inner kept]
      rcases same with blank | same
      · rw [blank, read_zero]
        exact .none
      · rw [same, read_kernel inner kept]
        exact .none
    | table used inner user nv taken same deep =>
      have reads : (userFormat entries).read (level + 1) (path (level + 1)) (before src (path (level + 1))) =
          .link (frameOf (before src (path (level + 1)))) := by
        simp [userFormat, (entryBuilt used user).1, inner, user]
      rw [reads, same, read_copy_table inner (outside nv taken)]
      exact ih deep (belowBuilt _ reads)

theorem userLeaf_built {found : Nat} (built : Built entries before level src)
    (leaf : leafAt (userFormat entries) before (tableIndex addr) level src = some (found, entry)) :
    found = 1 ∨ found = 2 ∧ frameOf entry % 512 = 0 := by
  refine leafAt_induct (motive := fun level src => Built entries before level src ->
    found = 1 ∨ found = 2 ∧ frameOf entry % 512 = 0) ?_ ?_ leaf built
  · rintro level src read rfl rfl built
    obtain ⟨isPresent, isLeaf⟩ := read_leaf_iff.1 read
    have used : before src (tableIndex addr (level + 1)) ≠ 0 := by
      intro zero
      simp [zero, present] at isPresent
    rcases isLeaf_level isLeaf with low | ⟨high, huge⟩
    · exact .inl low
    · exact .inr ⟨high, ((built _ (tableIndex_lt addr _)).1 used (not_leaf_kernel isLeaf)).2 high huge⟩
  · exact fun level src below read deep built => deep ((built _ (tableIndex_lt addr _)).2 below read)

theorem backing_pages {frame : Nat} (kind : level = 1 ∨ level = 2 ∧ frameOf entry % 512 = 0)
    (backed : backing addr level entry = some frame) : frame ∈ pagesOf level entry := by
  have low := tableIndex_lt addr 1
  rw [pagesOf, mem_range'_1]
  rcases kind with rfl | ⟨rfl, aligned⟩
  · simp only [backing, if_true, some.injEq] at backed
    omega
  · rw [backing, if_neg (by decide), if_pos (by omega), some.injEq] at backed
    omega

theorem translate_eq {mem : Nat -> Nat -> Nat} {root frame : Nat} :
    translate entries mem root addr = some (level, frame) ↔
      ∃ entry, userLeaf entries mem root addr = some (level, entry) ∧ backing addr level entry = some frame := by
  simp only [translate, Run.bind_iff, some.injEq, Prod.mk.injEq, Prod.exists]
  constructor
  · rintro ⟨_, entry, leaf, _, backed, rfl, rfl⟩
    exact ⟨entry, leaf, backed⟩
  · rintro ⟨entry, leaf, backed⟩
    exact ⟨level, entry, leaf, frame, backed, rfl, rfl⟩

theorem backing_some (addr : Nat) (kind : level = 1 ∨ level = 2 ∧ frameOf entry % 512 = 0) :
    ∃ frame, backing addr level entry = some frame := by
  rcases kind with rfl | ⟨rfl, aligned⟩
  · exact ⟨_, if_pos rfl⟩
  · exact ⟨_, by rw [backing, if_neg (by decide), if_pos (by omega)]⟩

theorem Copyable.low (copyable : Copyable pc entries before src) (built : Built entries before 4 src)
    (leaf : userLeaf entries before src addr = some (level, entry))
    (anonymous : pc.isPcPaddr (physAddr entry) = false) : level = 1 := by
  have kind := userLeaf_built built leaf
  obtain ⟨frame, backed⟩ := backing_some addr kind
  rcases kind with low | ⟨high, -⟩
  · exact low
  · simp [(copyable addr level entry frame leaf backed).1 high] at anonymous

theorem backing_copy (addr nv entry : Nat) : backing addr 1 (nv * pageSize + entry % pageSize) = some nv := by
  rw [backing, if_pos rfl, frameOf_link nv _ (Nat.mod_lt entry (by decide))]

variable (copied : Copied pc entries before after fresh 4 src dest) (built : Built entries before 4 src)
  (supply : Fresh entries before src fresh)

include copied built supply

theorem Copied.isolated (kept : ∀ frame, UserReaches entries before 4 src frame -> after frame = before frame)
    (copyable : Copyable pc entries before src) : Isolated pc entries before after src dest := by
  have walks (addr : Nat) := copied.leafAt (tableIndex_lt addr) supply.outside built
  constructor
  · intro addr level frame translated
    obtain ⟨entry, leaf, backed⟩ := translate_eq.1 translated
    have walk := walks addr
    rw [← userLeaf, ← userLeaf, leaf] at walk
    generalize found : userLeaf entries after dest addr = copyLeaf at walk
    cases walk with
    | some related =>
      cases related with
      | shared level entry cached =>
        refine ⟨frame, translate_eq.2 ⟨entry, found, backed⟩, fun word _ => ?_⟩
        have page := backing_pages (userLeaf_built built leaf) backed
        rw [kept frame (reaches_of_leafAt (tableIndex_lt addr) leaf page)]
      | page level entry nv anonymous taken contents =>
        obtain rfl := copyable.low built leaf anonymous
        simp only [backing, if_true, some.injEq] at backed
        exact ⟨nv, translate_eq.2 ⟨_, found, backing_copy addr nv entry⟩, fun word _ => by rw [contents, backed]⟩
  · intro addr level frame translated anonymous
    obtain ⟨copy, found, backed⟩ := translate_eq.1 translated
    have walk := walks addr
    rw [← userLeaf, ← userLeaf, found] at walk
    generalize leaf : userLeaf entries before src addr = srcLeaf at walk
    cases walk with
    | some related =>
      cases related with
      | shared level entry cached =>
        have inCache := (copyable addr level copy frame leaf backed).2 cached
        simp [inCache] at anonymous
      | page level entry nv outside taken contents =>
        obtain rfl := copyable.low built leaf outside
        rw [backing_copy, some.injEq] at backed
        exact backed ▸ supply.apart nv taken

theorem Copied.copyable (odd : ∀ nv ∈ fresh, nv % 4 = 2) (isolated : Isolated pc entries before after src dest) :
    Copyable pc entries before src := by
  intro addr level entry frame leaf backed
  have walk := copied.leafAt (tableIndex_lt addr) supply.outside built
  rw [← userLeaf, ← userLeaf, leaf] at walk
  generalize found : userLeaf entries after dest addr = copyLeaf at walk
  cases walk with
  | some related =>
    cases related with
    | shared level entry cached =>
      refine ⟨fun _ => cached, fun _ => ?_⟩
      by_contra anonymous
      have page := backing_pages (userLeaf_built built leaf) backed
      exact isolated.apart addr level frame (translate_eq.2 ⟨entry, found, backed⟩) (by simpa using anonymous)
        (reaches_of_leafAt (tableIndex_lt addr) leaf page)
    | page level entry nv anonymous taken contents =>
      refine ⟨fun high => ?_, fun cached => by simp [cached] at anonymous⟩
      obtain ⟨copy, translated, -⟩ := isolated.mapped addr level frame (translate_eq.2 ⟨entry, leaf, backed⟩)
      obtain ⟨word, again, reserved⟩ := translate_eq.1 translated
      rw [found, some.injEq, Prod.mk.injEq] at again
      have free := odd nv taken
      rw [← again.2, backing, if_neg (by omega), frameOf_link nv _ (Nat.mod_lt entry (by decide)),
        if_neg (by omega)] at reserved
      cases reserved

end

section

variable {pc : PcRegion} {srcMm : MmStruct} {srcIsKernel : Bool} {entries : List Nat} {s t : State}

def startCopy (u : State) (v : Nat) (entries : List Nat) : State :=
  { u with
    kernelLevel3Entries := entries
    mm := { u.mm with pgd := v * pageSize, statPageAllocs := u.mm.statPageAllocs + 1 } }

theorem kernelEntries_cleared {mem : Nat -> Nat -> Nat} {known : List Nat} {v : Nat}
    (collected : kernelEntries srcMm srcIsKernel mem known = some entries)
    (built : Built entries mem 4 (frameOf srcMm.pgd)) (apart : ¬ UserReaches entries mem 4 (frameOf srcMm.pgd) v)
    (cleared : Nat -> Nat) :
    kernelEntries srcMm srcIsKernel (update mem v cleared) known = some entries := by
  have root : frameOf srcMm.pgd ≠ v := fun same => apart (same ▸ reaches_table)
  rw [← collected, kernelEntries, kernelEntries]
  have words : kernelWords (update mem v cleared) (frameOf srcMm.pgd) = kernelWords mem (frameOf srcMm.pgd) := by
    refine flatMap_congr fun index member => ?_
    have inside := mem_range.1 member
    rw [update_of_ne root]
    by_cases empty : physAddr (mem (frameOf srcMm.pgd) index) = 0
    · rw [if_pos empty, if_pos empty]
    rw [if_neg empty, if_neg empty, update_of_ne]
    rintro rfl
    have used : mem (frameOf srcMm.pgd) index ≠ 0 := fun zero => empty (by rw [zero]; rfl)
    have user : kernelEntry entries 4 index (mem (frameOf srcMm.pgd) index) = false := by
      simp [kernelEntry, kernelPagesLevel]
    have isPresent := ((built index inside).1 used user).1
    refine apart (reaches_link inside ?_ reaches_table)
    simp [userFormat, isPresent, isLeaf, user]
  rw [copyKernelPagetableEntries, copyKernelPagetableEntries, words]

section

variable (mapped : srcMm.pgd ≠ 0) (unused : s.mm.pgd = 0)
  (collected : kernelEntries srcMm srcIsKernel s.mem s.kernelLevel3Entries = some entries)
  (built : Built entries s.mem 4 (frameOf srcMm.pgd)) (supply : Fresh entries s.mem (frameOf srcMm.pgd) s.pool)

include mapped unused collected built supply

theorem arDupPageTable_eq {v : Nat} {u : State} (allocated : mmPagealloc s = some (v, u)) :
    arDupPageTable pc srcMm srcIsKernel s =
      (copyPagetable pc 4 (frameOf srcMm.pgd) v (startCopy u v entries)).map (1, ·) := by
  obtain ⟨took, cleared⟩ := mmPagealloc_took 0 allocated
  have again : kernelEntries srcMm srcIsKernel u.mem u.kernelLevel3Entries = some entries := by
    rw [cleared, took.entries]
    exact kernelEntries_cleared collected built (supply.apart v (by simp [took.pool])) _
  rw [arDupPageTable, if_neg mapped, Run.guard_bind unused, allocated]
  simp only [Run.some_bind, again]
  exact map_eq_bind.symm

theorem arDupPageTable_copied {result : Nat} (ran : arDupPageTable pc srcMm srcIsKernel s = some (result, t)) :
    ∃ pages, pages.Sublist s.pool ∧
      Copied pc entries s.mem t.mem pages 4 (frameOf srcMm.pgd) (frameOf t.mm.pgd) ∧
      ∀ frame, UserReaches entries s.mem 4 (frameOf srcMm.pgd) frame -> t.mem frame = s.mem frame := by
  cases allocated : mmPagealloc s with
  | none => simp [arDupPageTable, mapped, unused, allocated] at ran
  | some answer =>
    obtain ⟨v, u⟩ := answer
    rw [arDupPageTable_eq mapped unused collected built supply allocated, map_eq_some_iff] at ran
    obtain ⟨t, copy, done⟩ := ran
    cases done
    obtain ⟨took, cleared⟩ := mmPagealloc_took v allocated
    have pool := took.pool
    have distinct := supply.distinct
    rw [pool, singleton_append, nodup_cons] at distinct
    have apart : ∀ frame ∈ v :: u.pool, ¬ UserReaches entries s.mem 4 (frameOf srcMm.pgd) frame := fun frame member =>
      supply.apart frame (by rw [pool]; exact member)
    have same : ∀ frame, UserReaches entries s.mem 4 (frameOf srcMm.pgd) frame -> u.mem frame = s.mem frame := by
      intro frame reached
      rw [cleared, update_of_ne]
      rintro rfl
      exact apart _ mem_cons_self reached
    have ready : Ready entries s.mem 4 (frameOf srcMm.pgd) v (startCopy u v entries) :=
      ⟨rfl, same, distinct.2, fun frame member => apart frame (mem_cons_of_mem _ member),
        apart v mem_cons_self, distinct.1⟩
    obtain ⟨pages, taken, copied⟩ := copyPagetable_spec pc entries s.mem 4 _ v _ t ready built
      (fun word _ => by
        change u.mem v word = 0
        rw [cleared, update_self]) copy
    have directory : frameOf t.mm.pgd = v := by
      rw [taken.pgd]
      exact frameOf_mul v
    refine ⟨pages, ?_, directory ▸ copied, fun frame reached => ?_⟩
    · rw [pool]
      have left : u.pool = pages ++ t.pool := taken.pool
      rw [left]
      exact (sublist_append_left ..).trans (sublist_append_right ..)
    · rw [(ready.took taken id (.inl rfl)).same frame reached]

theorem arDupPageTable_returns (enough : 1 + copyCost 4 ≤ s.pool.length) :
    ∃ t, arDupPageTable pc srcMm srcIsKernel s = some (1, t) := by
  obtain ⟨v, u, allocated, left⟩ := mmPagealloc_returns (s := s) (by omega)
  obtain ⟨t, copied, -⟩ := copyPagetable_returns pc 4 (frameOf srcMm.pgd) v (startCopy u v entries) (by
    change copyCost 4 ≤ u.pool.length
    omega)
  exact ⟨t, by rw [arDupPageTable_eq mapped unused collected built supply allocated, copied, map_some]⟩

end

theorem Fresh.part {mem : Nat -> Nat -> Nat} {src : Nat} {pool pages : List Nat} (supply : Fresh entries mem src pool)
    (part : pages.Sublist pool) : Fresh entries mem src pages :=
  ⟨supply.distinct.sublist part, fun frame member => supply.apart frame (part.subset member),
    fun frame member => supply.outside frame (part.subset member)⟩

theorem fresh_odd (entries : List Nat) (mem : Nat -> Nat -> Nat) (src count : Nat) :
    ∃ pool, Fresh entries mem src pool ∧ pool.length = count ∧ ∀ nv ∈ pool, nv % 4 = 2 := by
  obtain ⟨bound, below⟩ := (reaches_finite (userFormat entries) pagesOf mem 4 src).bddAbove
  refine ⟨(List.range count).map fun place => 4 * (bound + entries.sum + bootTable + place) + 2,
    ⟨?_, ?_, ?_⟩, by simp, ?_⟩
  · exact List.Nodup.map (fun left right same => by simpa using same) nodup_range
  · intro frame member reached
    obtain ⟨place, -, rfl⟩ := mem_map.1 member
    have small := below reached
    omega
  · intro frame member
    obtain ⟨place, -, rfl⟩ := mem_map.1 member
    have grows : ∀ frame, frame ≤ frame * pageSize := fun frame => Nat.le_mul_of_pos_right frame (by decide)
    constructor
    · intro listed
      have small := (grows _).trans (le_sum_of_mem listed)
      omega
    · exact Nat.ne_of_gt (Nat.lt_of_lt_of_le (by omega) (grows _))
  · intro frame member
    obtain ⟨place, -, rfl⟩ := mem_map.1 member
    omega

end

-- The call returns whenever the allocator has the pages, and every copy is isolated from the table of
-- `srcMm`.
def DupIsolates (pc : PcRegion) (srcMm : MmStruct) (srcIsKernel : Bool) (mem : Nat -> Nat -> Nat)
    (known entries : List Nat) : Prop :=
  ∀ s : State, s.mem = mem -> s.kernelLevel3Entries = known -> s.mm.pgd = 0 ->
    Fresh entries mem (frameOf srcMm.pgd) s.pool ->
    (1 + copyCost 4 ≤ s.pool.length -> ∃ t, arDupPageTable pc srcMm srcIsKernel s = some (1, t)) ∧
    ∀ result t, arDupPageTable pc srcMm srcIsKernel s = some (result, t) ->
      Isolated pc entries mem t.mem (frameOf srcMm.pgd) (frameOf t.mm.pgd)

theorem dup_isolates_iff (pc : PcRegion) (srcMm : MmStruct) (srcIsKernel : Bool) (mem : Nat -> Nat -> Nat)
    (known entries : List Nat) (mapped : srcMm.pgd ≠ 0)
    (collected : kernelEntries srcMm srcIsKernel mem known = some entries)
    (built : Built entries mem 4 (frameOf srcMm.pgd)) :
    DupIsolates pc srcMm srcIsKernel mem known entries ↔ Copyable pc entries mem (frameOf srcMm.pgd) := by
  constructor
  · intro isolates
    obtain ⟨pool, supply, enough, odd⟩ := fresh_odd entries mem (frameOf srcMm.pgd) (1 + copyCost 4)
    let s : State :=
      { mem := mem
        pool := pool
        freed := []
        kernelLevel3Entries := known
        mm := { pgd := 0, statPageAllocs := 0, statPageFree := 0 } }
    obtain ⟨returns, isolated⟩ := isolates s rfl rfl rfl supply
    obtain ⟨t, ran⟩ := returns enough.ge
    obtain ⟨pages, part, copied, -⟩ := arDupPageTable_copied (s := s) mapped rfl collected built supply ran
    exact copied.copyable built (supply.part part) (fun nv member => odd nv (part.subset member)) (isolated 1 t ran)
  · rintro copyable s rfl rfl unused supply
    refine ⟨arDupPageTable_returns mapped unused collected built supply, fun result t ran => ?_⟩
    obtain ⟨pages, part, copied, kept⟩ := arDupPageTable_copied mapped unused collected built supply ran
    exact copied.isolated built (supply.part part) kept copyable

def smallCache : PcRegion := { startAddr := 0x1000000, len := 0x2000000 }

def oneHugePage (frame word : Nat) : Nat :=
  if frame = 0x40001 then 9
  else if word ≠ 0 then 0
  else if frame = 0x20000 then 0x20001 * pageSize + 7
  else if frame = 0x20001 then 0x20002 * pageSize + 7
  else if frame = 0x20002 then 0x40000 * pageSize + 0x87
  else 0

def hugeMm : MmStruct := { pgd := 0x20000 * pageSize, statPageAllocs := 0, statPageFree := 0 }

def kernelTable : Nat := 0x500 * pageSize

def hugeStart : State :=
  { mem := oneHugePage
    pool := [0x30000, 0x30200, 0x30400, 0x30600]
    freed := []
    kernelLevel3Entries := [kernelTable]
    mm := { pgd := 0, statPageAllocs := 0, statPageFree := 0 } }

theorem oneHugePage_built : Built [kernelTable] oneHugePage 4 0x20000 := by decide +kernel

theorem hugeStart_fresh : Fresh [kernelTable] oneHugePage 0x20000 hugeStart.pool :=
  ⟨by decide, by decide +kernel, by decide +kernel⟩

theorem dup_isolates_iff_oneHugePage :
    hugeMm.pgd ≠ 0 ∧ kernelEntries hugeMm false oneHugePage [kernelTable] = some [kernelTable] ∧
      Built [kernelTable] oneHugePage 4 (frameOf hugeMm.pgd) ∧
      (DupIsolates smallCache hugeMm false oneHugePage [kernelTable] [kernelTable] ↔
        Copyable smallCache [kernelTable] oneHugePage (frameOf hugeMm.pgd)) :=
  ⟨by decide, rfl, oneHugePage_built,
    dup_isolates_iff smallCache hugeMm false oneHugePage _ _ (by decide) rfl oneHugePage_built⟩

theorem huge_page_not_copied : Fresh [kernelTable] oneHugePage (frameOf hugeMm.pgd) hugeStart.pool ∧
      ∃ t, arDupPageTable smallCache hugeMm false hugeStart = some (1, t) ∧
        ¬ Isolated smallCache [kernelTable] oneHugePage t.mem (frameOf hugeMm.pgd) (frameOf t.mm.pgd) := by
  refine ⟨hugeStart_fresh, ?_⟩
  have outcome : (arDupPageTable smallCache hugeMm false hugeStart).map (fun result =>
      (result.1, translate [kernelTable] result.2.mem (frameOf result.2.mm.pgd) 4096, result.2.mem 0x30601 0)) =
      some (1, some (2, 0x30601), 0) := by decide +kernel
  obtain ⟨⟨result, t⟩, ran, seen⟩ := map_eq_some_iff.1 outcome
  simp only [Prod.mk.injEq] at seen
  obtain ⟨rfl, translated, blank⟩ := seen
  refine ⟨t, ran, fun isolated => ?_⟩
  have source : translate [kernelTable] oneHugePage (frameOf hugeMm.pgd) 4096 = some (2, 0x40001) := by decide +kernel
  obtain ⟨copy, mapped, equal⟩ := isolated.mapped 4096 2 0x40001 source
  rw [translated, some.injEq, Prod.mk.injEq] at mapped
  have contents := equal 0 (by decide)
  rw [← mapped.2, blank] at contents
  exact absurd contents (by decide)

end JinyKernel.Paging
