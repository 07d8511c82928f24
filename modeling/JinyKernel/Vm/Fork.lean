import JinyKernel.Vm.Run

namespace JinyKernel.Vm

-- The `mm` of the child and of the parent, which share the inode counts; only the heap is copied beside the
-- areas.
def scClone (slab : Vma -> Bool) (mm : Mm) : Option (Mm × Mm) :=
  (vmDupVmaps slab mm.mmap { emptyMm with inodeCount := mm.inodeCount }).map fun child =>
    ({ child with brkAddr := mm.brkAddr, brkLen := mm.brkLen }, { mm with inodeCount := child.inodeCount })

def call (mm : Mm) : Event -> Option (Int × Mm)
  | .mmap task args => (vmMmap task mm args).map fun out => (out.1, out.2)
  | .munmap addr len => some ((vmMunmap mm addr len).ret, (vmMunmap mm addr len).mm)
  | .brk addr => (sysVmBrk mm addr).map fun out => (out.1, out.2)
  | .setupBrk task addr len slab => (vmSetupBrk task mm addr len slab).map fun out => (out.1, out.2)

def calls (mm : Mm) : List Event -> Option (List Int × List Vma)
  | [] => some ([], mm.mmap)
  | event :: rest => (call mm event).bind fun out => (calls out.2 rest).map fun later => (out.1 :: later.1, later.2)

variable {mm : Mm}

theorem vmDupVmaps_anonymousAddr {slab : Vma -> Bool} {mmap : List Vma} {dest copy : Mm}
    (copied : vmDupVmaps slab mmap dest = some copy) : copy.anonymousAddr = dest.anonymousAddr := by
  induction mmap generalizing dest with
  | nil =>
    cases copied
    rfl
  | cons vma rest ih =>
    rw [vmDupVmaps, List.foldlM_cons] at copied
    split_ifs at copied with linked
    · rw [ih copied]
      rcases vmaLink_cases dest vma with ⟨-, same⟩ | ⟨-, early, late, -, -, -, same⟩ <;> rw [same]
    · cases copied

theorem scClone_equal (unplaced : mm.anonymousAddr = 0) (copyable : Copyable mm.mmap) :
    ∃ child parent, scClone (fun _ => true) mm = some (child, parent) ∧
      ∀ events, calls child events = calls parent events := by
  rw [scClone, vmDupVmaps_same rfl copyable]
  -- every field but `anonymous_addr` is copied
  refine ⟨_, _, rfl, fun events => ?_⟩
  simp [emptyMm, unplaced]

-- One page below `USERANONYMOUS_ADDR` is mapped and one anywhere.
def tell : List Event :=
  [.munmap 0 (2 ^ 64 - 1), .mmap userTask (onePage (0x7ffefffff000)), .mmap userTask (onePage 0)]

theorem vmaLink_members {area vma : Vma} (member : area ∈ (vmaLink mm vma).2.mmap) : area = vma ∨ area ∈ mm.mmap := by
  rcases vmaLink_cases mm vma with ⟨-, same⟩ | ⟨-, early, late, split, -, -, result⟩
  · exact .inr (same ▸ member)
  · simpa [result, split, or_left_comm] using member

theorem munmap_all (words : ∀ area ∈ mm.mmap, area.vmEnd < 2 ^ 64) : (vmMunmap mm 0 (2 ^ 64 - 1)).mm.mmap = [] := by
  rw [(vmMunmap_spec mm 0 (2 ^ 64 - 1)).1, if_neg (by simp)]
  refine List.filter_eq_nil_iff.2 fun area member => ?_
  have := words area member
  simp only [unmaps, wrap]
  simp
  omega

def below : Vma := newVma (onePage (0x7ffefffff000))

theorem mmap_below (empty : mm.mmap = []) : vmMmap userTask mm (onePage (0x7ffefffff000)) =
    some (0x7ffefffff000, { mm with mmap := [below] }) := by
  have missed : vmFindVma mm.mmap (0x7ffefffff000) pageSize = none := by rw [empty]; rfl
  have given : ¬ (onePage (0x7ffefffff000)).Anonymous userTask := by decide
  rw [vmMmap, onePage, missed]
  dsimp only
  rw [if_neg (by decide), if_neg (by decide), ← onePage, if_neg given, mmapLink, vmaLink, if_pos empty]
  rfl

theorem mmap_anywhere (alone : mm.mmap = [below]) :
    vmMmap userTask mm (onePage 0) = some (mmapAnonymous userTask mm (onePage 0)) := by
  have missed : vmFindVma mm.mmap 0 pageSize = none := by rw [alone]; decide
  have floats : (onePage 0).Anonymous userTask := by decide
  rw [vmMmap, onePage, missed]
  dsimp only
  rw [if_neg (by decide), if_neg (by decide), ← onePage, if_pos floats]

theorem child_places (alone : mm.mmap = [below]) (unplaced : mm.anonymousAddr = 0) :
    ∃ area ∈ (mmapAnonymous userTask mm (onePage 0)).2.mmap, area.vmStart = userAnonymousAddr := by
  have behind (vma : Vma) (start : vma.vmStart = userAnonymousAddr) : linkFrom vma true [below] = (1, [below, vma]) := by
    rw [linkFrom, start, if_pos (by decide)]
    rfl
  rw [mmapAnonymous, if_pos unplaced, placeAnonymous, mmapLink, vmaLink]
  simp only [alone, reduceCtorEq, if_false]
  rw [behind _ rfl]
  exact ⟨_, List.mem_cons_of_mem below List.mem_cons_self, rfl⟩

-- The page grows, or the cursor is the address of the new area.
theorem parent_places (alone : mm.mmap = [below]) (placed : mm.anonymousAddr ≠ 0) :
    ∀ area ∈ (mmapAnonymous userTask mm (onePage 0)).2.mmap, area.vmStart ≠ userAnonymousAddr := by
  have start : below.vmStart ≠ userAnonymousAddr := by decide
  rw [mmapAnonymous, if_neg placed, alone]
  by_cases found : below.vmStart ≤ wrapSub mm.anonymousAddr 100 ∧ wrap (wrapSub mm.anonymousAddr 100 + 10) ≤ below.vmEnd
  · have search : vmFindVma [below] (wrapSub mm.anonymousAddr 100) 10 = some 0 := by simp [vmFindVma, found]
    have clear : vmFindVmaOvrlap (growVma [below] 0 (wrap (below.vmEnd + (onePage 0).len))) 0 = none := by decide
    rw [search]
    simp only [List.getElem?_cons_zero, clear, if_true]
    intro area member
    rw [List.mem_singleton.1 member]
    exact start
  · have search : vmFindVma [below] (wrapSub mm.anonymousAddr 100) 10 = none := by
      simp [vmFindVma] at found ⊢
      exact found
    have elsewhere : mm.anonymousAddr ≠ userAnonymousAddr := by
      intro there
      rw [there] at found
      exact found (by decide)
    rw [search]
    dsimp only [placeAnonymous, mmapLink]
    intro area member
    rcases vmaLink_members member with rfl | old
    · exact elsewhere
    · rw [alone] at old
      rw [List.mem_singleton.1 old]
      exact start

theorem calls_tell (mm : Mm) (words : ∀ area ∈ mm.mmap, area.vmEnd < 2 ^ 64) : ∃ rets after, after.mmap = [below] ∧
    after.anonymousAddr = mm.anonymousAddr ∧
    calls mm tell = some (rets, (mmapAnonymous userTask after (onePage 0)).2.mmap) := by
  have emptied := munmap_all words
  have cursor := (vmMunmap_spec mm 0 (2 ^ 64 - 1)).2.2.2
  simp only [tell, calls, call, Option.bind_some]
  generalize vmMunmap mm 0 (2 ^ 64 - 1) = left at *
  rw [mmap_below emptied, Option.map_some, Option.bind_some, mmap_anywhere rfl]
  exact ⟨_, { left.mm with mmap := [below] }, rfl, cursor, rfl⟩

theorem fork_equivalent_iff (mm : Mm) (proper : ∀ area ∈ mm.mmap, area.vmStart ≤ area.vmEnd)
    (words : ∀ area ∈ mm.mmap, area.vmEnd < 2 ^ 64) :
    (∃ child parent, scClone (fun _ => true) mm = some (child, parent) ∧
      ∀ events, calls child events = calls parent events) ↔
    mm.anonymousAddr = 0 ∧ WellFormed mm.mmap ∧
      ∀ addr, (emptiesAt addr mm.mmap.tail).reverse = emptiesAt addr mm.mmap.tail := by
  refine ⟨?_, fun ⟨unplaced, copyable⟩ => scClone_equal unplaced copyable⟩
  rintro ⟨child, parent, cloned, equal⟩
  obtain ⟨copy, copied, shape⟩ := Option.map_eq_some_iff.1 cloned
  cases shape
  have same : copy.mmap = mm.mmap := by simpa [calls] using equal []
  refine ⟨?_, copyable_of_same rfl proper copied same⟩
  by_contra placed
  have unplaced : copy.anonymousAddr = 0 := (vmDupVmaps_anonymousAddr copied).trans rfl
  obtain ⟨_, ofChild, alone, cursor, tellsChild⟩ :=
    calls_tell { copy with brkAddr := mm.brkAddr, brkLen := mm.brkLen } (by simpa [same] using words)
  obtain ⟨_, ofParent, aloneToo, cursorToo, tellsParent⟩ := calls_tell { mm with inodeCount := copy.inodeCount } words
  obtain ⟨area, member, there⟩ := child_places alone (cursor.trans unplaced)
  have lists := equal tell
  rw [tellsChild, tellsParent] at lists
  simp only [Option.some.injEq, Prod.mk.injEq] at lists
  rw [lists.2] at member
  exact parent_places aloneToo (by rwa [cursorToo]) area member there

theorem fork_equivalent_touching : ∃ child parent, scClone (fun _ => true) { emptyMm with mmap := touchingAreas } =
    some (child, parent) ∧ ∀ events, calls child events = calls parent events :=
  (fork_equivalent_iff { emptyMm with mmap := touchingAreas } (by decide) (by decide)).2 ⟨rfl, touchingAreas_copyable⟩

theorem child_places_anew : ∃ mm child parent, Reaches mm ∧ scClone (fun _ => true) mm = some (child, parent) ∧
    calls parent [.mmap userTask (onePage 0)] ≠ calls child [.mmap userTask (onePage 0)] := by
  have outcome : ((step emptyMm (.mmap userTask (onePage 0))).any fun mm => ∃ out ∈ scClone (fun _ => true) mm,
      calls out.2 [.mmap userTask (onePage 0)] ≠ calls out.1 [.mmap userTask (onePage 0)]) = true := by
    decide +kernel
  obtain ⟨mm, mapped, ⟨child, parent⟩, cloned, differ⟩ := Run.holds_of_any outcome
  have fits : Fits emptyMm (.mmap userTask (onePage 0)) := (by decide : (onePage 0).Fits userTask emptyMm)
  exact ⟨mm, child, parent, .next (.start rfl) fits mapped, cloned, differ⟩

end JinyKernel.Vm
