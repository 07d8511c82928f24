import JinyKernel.Shared.Ranges
import JinyKernel.Vm.Model

namespace JinyKernel.Vm

open Ranges List

abbrev WellFormed (mmap : List Vma) : Prop := Separated Vma.vmStart Vma.vmEnd mmap

theorem linkFrom_split (vma : Vma) (first : Bool) (mmap : List Vma) (linked : 0 ≤ (linkFrom vma first mmap).1) :
    ∃ early late, mmap = early ++ late ∧ (linkFrom vma first mmap).2 = early ++ vma :: late ∧
      (∀ area ∈ early, area.vmEnd ≤ vma.vmStart) ∧ ∀ area ∈ late.head?, vma.vmEnd ≤ area.vmStart := by
  induction mmap generalizing first with
  | nil => simp [linkFrom] at linked
  | cons tmp rest ih =>
    rw [linkFrom] at linked ⊢
    split_ifs at linked ⊢ with after before isFirst
    · cases rest with
      | nil => exact ⟨[tmp], [], rfl, rfl, by simpa using after, by simp⟩
      | cons next later =>
        simp only [head?_cons] at linked ⊢
        split_ifs at linked ⊢ with fits
        · exact ⟨[tmp], next :: later, rfl, rfl, by simpa using after, by simpa using fits⟩
        · obtain ⟨early, late, split, result, below, above⟩ := ih false linked
          exact ⟨tmp :: early, late, by rw [split]; rfl, by rw [result]; rfl, by simpa using ⟨after, below⟩, above⟩
    · exact ⟨[], tmp :: rest, rfl, rfl, by simp, by simpa using before.le⟩
    · simp at linked
    · simp at linked

theorem vmaLink_cases (mm : Mm) (vma : Vma) : (vmaLink mm vma).1 < 0 ∧ (vmaLink mm vma).2 = mm ∨
    0 ≤ (vmaLink mm vma).1 ∧ ∃ early late, mm.mmap = early ++ late ∧ (∀ area ∈ early, area.vmEnd ≤ vma.vmStart) ∧
      (∀ area ∈ late.head?, vma.vmEnd ≤ area.vmStart) ∧ (vmaLink mm vma).2 =
        { mm with mmap := early ++ vma :: late, inodeCount := countInode mm.inodeCount vma.vmInode 1 } := by
  rw [vmaLink]
  split_ifs with empty
  · exact .inr ⟨Int.one_nonneg, [], [], empty, by simp, by simp, rfl⟩
  dsimp only
  split_ifs with linked
  · obtain ⟨early, late, split, result, below, above⟩ := linkFrom_split vma true mm.mmap linked
    exact .inr ⟨linked, early, late, split, below, above, by rw [result]⟩
  · exact .inl ⟨not_le.1 linked, rfl⟩

theorem vmaLink_wellFormed (mm : Mm) (vma : Vma) (proper : vma.vmStart ≤ vma.vmEnd)
    (wellFormed : WellFormed mm.mmap) : WellFormed (vmaLink mm vma).2.mmap := by
  rcases vmaLink_cases mm vma with ⟨-, same⟩ | ⟨-, early, late, split, below, above, result⟩
  · rw [same]
    exact wellFormed
  · rw [result]
    rw [split] at wellFormed
    exact wellFormed.insert proper below above

section

def fileArea (vmStart vmEnd : Nat) : Vma :=
  { vmStart := vmStart
    vmEnd := vmEnd
    name := "syscall"
    vmProt := protRead
    vmFlags := 0
    vmInode := some 7
    vmPrivateData := 0
    hugepagesEnabled := false }

variable {vma : Vma} {mmap : List Vma} {dest : Mm}

theorem countInode_countP (counts : Nat -> Int) (inode : Nat) : countInode counts vma.vmInode 1 inode +
    mmap.countP (fun area => area.vmInode = some inode) =
      counts inode + (vma :: mmap).countP fun area => area.vmInode = some inode := by
  rw [countP_cons]
  cases vma.vmInode with
  | none => simp [countInode]
  | some other =>
    by_cases same : inode = other
    · subst same
      simp [countInode]
      omega
    · simp [countInode, Function.update_of_ne same, Ne.symm same]

-- A copy behind which nothing begins goes in front of those that do not begin before its end.
theorem linkFrom_behind (first : Bool) (tmp : Vma) (rest : List Vma)
    (below : ∀ area ∈ tmp :: rest, area.vmEnd ≤ vma.vmStart) : 0 ≤ (linkFrom vma first (tmp :: rest)).1 ∧
      ∃ front back, rest = front ++ back ∧ (linkFrom vma first (tmp :: rest)).2 = tmp :: (front ++ vma :: back) ∧
        (∀ area ∈ front, area.vmStart < vma.vmEnd) ∧ ∀ area ∈ back.head?, vma.vmEnd ≤ area.vmStart := by
  induction rest generalizing first tmp with
  | nil =>
    rw [linkFrom, if_pos (below tmp (by simp))]
    exact ⟨Int.one_nonneg, [], [], rfl, rfl, by simp, by simp⟩
  | cons next later ih =>
    rw [linkFrom, if_pos (below tmp (by simp))]
    simp only [head?_cons]
    split_ifs with fits
    · exact ⟨by simp, [], next :: later, rfl, rfl, by simp, by simpa using fits⟩
    · obtain ⟨linked, front, back, split, result, early, late⟩ :=
        ih false next fun area member => below area (mem_cons_of_mem tmp member)
      exact ⟨linked, next :: front, back, by rw [split]; rfl, by rw [result]; rfl,
        forall_mem_cons.2 ⟨not_le.1 fits, early⟩, late⟩

abbrev emptiesAt (addr : Nat) (mmap : List Vma) : List Vma :=
  mmap.filter fun area => area.vmStart = addr ∧ area.vmEnd = addr

structure Copies (source copy : List Vma) : Prop where
  areas : WellFormed copy
  perm : copy.Perm source
  first : copy.head? = source.head?
  turned : ∀ addr, emptiesAt addr copy.tail = (emptiesAt addr source.tail).reverse

theorem emptiesAt_insert {front back : List Vma} (addr : Nat)
    (early : ∀ area ∈ front, area.vmStart < vma.vmEnd) :
    emptiesAt addr (front ++ vma :: back) = emptiesAt addr [vma] ++ emptiesAt addr (front ++ back) := by
  simp only [emptiesAt, filter_append, filter_cons, filter_nil]
  split_ifs with here
  · have nothing : emptiesAt addr front = [] := by
      refine filter_eq_nil_iff.2 fun area member held => ?_
      have := early area member
      simp only [decide_eq_true_eq] at here held
      omega
    rw [emptiesAt] at nothing
    rw [nothing]
    rfl
  · rfl

theorem Copies.link {source : List Vma} (copies : Copies source dest.mmap) (proper : vma.vmStart ≤ vma.vmEnd)
    (below : ∀ area ∈ source, area.vmEnd ≤ vma.vmStart) : ∃ linked, Copies (source ++ [vma]) linked ∧
      0 ≤ (vmaLink dest vma).1 ∧ (vmaLink dest vma).2 =
        { dest with mmap := linked, inodeCount := countInode dest.inodeCount vma.vmInode 1 } := by
  obtain ⟨areas, perm, first, turned⟩ := copies
  rw [vmaLink]
  cases source with
  | nil =>
    rw [if_pos perm.eq_nil]
    exact ⟨[vma], ⟨Separated.nil.cons proper (by simp), Perm.refl _, rfl, by simp⟩, Int.one_nonneg, rfl⟩
  | cons head rest =>
    cases shape : dest.mmap with
    | nil => simp [shape] at first
    | cons tmp tail =>
      rw [shape] at areas perm first turned
      obtain rfl : tmp = head := Option.some.inj first
      obtain ⟨linked, front, back, rfl, result, early, late⟩ :=
        linkFrom_behind true tmp tail fun area member => below area (perm.mem_iff.1 member)
      rw [if_neg (cons_ne_nil _ _)]
      simp only [linked, if_true, result]
      have ends (area : Vma) (member : area ∈ tmp :: front) : area.vmEnd ≤ vma.vmStart :=
        below area (perm.mem_iff.1 (mem_append_left back member))
      refine ⟨tmp :: (front ++ vma :: back), ⟨areas.insert proper ends late, ?_, rfl, fun addr => ?_⟩, trivial, rfl⟩
      · exact (perm_middle.trans (perm.cons_inv.cons vma)).trans (perm_append_singleton vma rest).symm |>.cons tmp
      · have behind : emptiesAt addr (front ++ back) = _ := turned addr
        rw [tail_cons, emptiesAt_insert addr early, behind]
        simp only [emptiesAt, cons_append, tail_cons, filter_append, reverse_append, ← filter_reverse, reverse_singleton]

theorem vmDupVmaps_copies {source : List Vma} (copies : Copies source dest.mmap)
    (separated : WellFormed (source ++ mmap)) : ∃ copy, Copies (source ++ mmap) copy ∧
      vmDupVmaps (fun _ => true) mmap dest = some { dest with
        mmap := copy
        inodeCount := fun inode => dest.inodeCount inode + mmap.countP fun area => area.vmInode = some inode } := by
  induction mmap generalizing dest source with
  | nil => exact ⟨dest.mmap, by simpa using copies, by simp [vmDupVmaps]⟩
  | cons vma rest ih =>
    have parts := pairwise_append.1 separated.ordered
    obtain ⟨linked, after, accepted, result⟩ := copies.link (separated.proper vma (by simp))
      fun area member => parts.2.2 area member vma (by simp)
    have split : source ++ vma :: rest = source ++ [vma] ++ rest := by simp
    rw [split] at separated ⊢
    have mmap : (vmaLink dest vma).2.mmap = linked := by rw [result]
    rw [← mmap] at after
    obtain ⟨copy, whole, copied⟩ := ih after separated
    refine ⟨copy, whole, ?_⟩
    rw [vmDupVmaps, foldlM_cons, if_pos ⟨rfl, accepted⟩, Option.bind_eq_bind, Option.bind_some]
    refine copied.trans ?_
    rw [result]
    simp [countInode_countP]

theorem Copies.same_iff {copy : List Vma} (copies : Copies mmap copy) (separated : WellFormed mmap) :
    copy = mmap ↔ ∀ addr, (emptiesAt addr mmap.tail).reverse = emptiesAt addr mmap.tail := by
  obtain ⟨areas, perm, first, turned⟩ := copies
  constructor
  · rintro rfl addr
    exact (turned addr).symm
  intro mirrored
  cases mmap with
  | nil => exact perm.eq_nil
  | cons head rest =>
    cases copy with
    | nil => cases first
    | cons tmp tail =>
      obtain rfl : tmp = head := Option.some.inj first
      rw [areas.tail.eq_of_perm separated.tail perm.cons_inv fun addr => (turned addr).trans (mirrored addr)]

theorem vmDupVmaps_wellFormed (slab : Vma -> Bool) (proper : ∀ area ∈ mmap, area.vmStart ≤ area.vmEnd)
    (areas : WellFormed dest.mmap) {copy : Mm} (copied : vmDupVmaps slab mmap dest = some copy) :
    WellFormed copy.mmap := by
  induction mmap generalizing dest with
  | nil =>
    cases copied
    exact areas
  | cons vma rest ih =>
    rw [vmDupVmaps, foldlM_cons] at copied
    split_ifs at copied with linked
    · exact ih (fun area member => proper area (mem_cons_of_mem vma member))
        (vmaLink_wellFormed dest vma (proper vma mem_cons_self) areas) copied
    · cases copied

-- Behind the first area the empty ones at any address read the same backwards.
abbrev Copyable (mmap : List Vma) : Prop :=
  WellFormed mmap ∧ ∀ addr, (emptiesAt addr mmap.tail).reverse = emptiesAt addr mmap.tail

theorem vmDupVmaps_same (empty : dest.mmap = []) (copyable : Copyable mmap) :
    vmDupVmaps (fun _ => true) mmap dest = some { dest with
      mmap := mmap
      inodeCount := fun inode => dest.inodeCount inode + mmap.countP fun area => area.vmInode = some inode } := by
  have start : Copies [] dest.mmap := by rw [empty]; exact ⟨Separated.nil, Perm.refl _, rfl, by simp⟩
  obtain ⟨copy, copies, copied⟩ := vmDupVmaps_copies start copyable.1
  rw [copied, (copies.same_iff copyable.1).2 copyable.2]
  rfl

theorem copyable_of_same (empty : dest.mmap = []) (proper : ∀ area ∈ mmap, area.vmStart ≤ area.vmEnd) {copy : Mm}
    (copied : vmDupVmaps (fun _ => true) mmap dest = some copy) (same : copy.mmap = mmap) : Copyable mmap := by
  have areas : WellFormed mmap := by
    rw [← same]
    exact vmDupVmaps_wellFormed _ proper (by rw [empty]; exact Separated.nil) copied
  have start : Copies [] dest.mmap := by rw [empty]; exact ⟨Separated.nil, Perm.refl _, rfl, by simp⟩
  obtain ⟨list, copies, result⟩ := vmDupVmaps_copies start areas
  rw [copied] at result
  obtain rfl := Option.some.inj result
  exact ⟨areas, (copies.same_iff areas).1 same⟩

theorem vmaps_duplicated_iff (mmap : List Vma) (dest : Mm) (empty : dest.mmap = [])
    (proper : ∀ area ∈ mmap, area.vmStart ≤ area.vmEnd) :
    vmDupVmaps (fun _ => true) mmap dest = some { dest with
      mmap := mmap
      inodeCount := fun inode => dest.inodeCount inode + mmap.countP fun area => area.vmInode = some inode } ↔
    WellFormed mmap ∧ ∀ addr, (emptiesAt addr mmap.tail).reverse = emptiesAt addr mmap.tail :=
  ⟨fun copied => copyable_of_same empty proper copied rfl, vmDupVmaps_same empty⟩

def touchingAreas : List Vma := [fileArea 0x1000 0x3000, fileArea 0x3000 0x3000, fileArea 0x3000 0x4000]

theorem touchingAreas_copyable : Copyable touchingAreas := by
  refine ⟨⟨by decide, by decide⟩, fun addr => ?_⟩
  simp only [emptiesAt, touchingAreas, fileArea, tail_cons, filter_cons, filter_nil]
  split_ifs with here there
  · simp at here there
    omega
  all_goals rfl

theorem vmaps_duplicated_touching : ∃ dest, vmDupVmaps (fun _ => true) touchingAreas emptyMm = some dest ∧
    dest.mmap = touchingAreas ∧ dest.inodeCount 7 = 3 :=
  ⟨_, (vmaps_duplicated_iff touchingAreas emptyMm rfl (by decide)).2 touchingAreas_copyable, rfl, rfl⟩

def emptyAreas : List Vma :=
  [fileArea 0x1000 0x3000, fileArea 0x3000 0x3000, { fileArea 0x3000 0x3000 with vmProt := 0 }]

theorem empty_areas_swapped : emptyAreas.Pairwise (fun left right => left.vmStart ≤ right.vmStart) ∧
    emptyAreas.Pairwise (fun left right => left.vmEnd ≤ right.vmStart) ∧
    ∃ dest, vmDupVmaps (fun _ => true) emptyAreas emptyMm = some dest ∧ dest.mmap ≠ emptyAreas :=
  ⟨by decide, by decide, _, rfl, by decide⟩

end

theorem vmFindVma_split {mmap : List Vma} {addr len index : Nat} (found : vmFindVma mmap addr len = some index) :
    ∃ early vma late, mmap = early ++ vma :: late ∧ early.length = index ∧ vma.vmStart ≤ addr ∧
      wrap (addr + len) ≤ vma.vmEnd := by
  rw [vmFindVma, findIdx?_eq_some_iff_getElem] at found
  obtain ⟨inRange, holds, -⟩ := found
  simp only [Bool.and_eq_true, decide_eq_true_eq] at holds
  refine ⟨mmap.take index, mmap[index], mmap.drop (index + 1), ?_, ?_, holds⟩
  · rw [← drop_eq_getElem_cons inRange, take_append_drop]
  · rw [length_take]
    omega

theorem modify_split (early late : List Vma) (vma : Vma) (f : Vma -> Vma) :
    (early ++ vma :: late).modify early.length f = early ++ f vma :: late := by
  simp [modify_eq_take_cons_drop]

theorem growVma_split (early late : List Vma) (vma : Vma) (vmEnd : Nat) :
    growVma (early ++ vma :: late) early.length vmEnd = early ++ { vma with vmEnd := vmEnd } :: late :=
  modify_split early late vma _

theorem vmFindVmaOvrlap_none_iff {early late : List Vma} {vma : Vma} :
    vmFindVmaOvrlap (early ++ vma :: late) early.length = none ↔ ∀ other ∈ early ++ late,
      ¬ (other.vmStart < vma.vmStart ∧ vma.vmStart < other.vmEnd ∨
        vma.vmStart < other.vmStart ∧ other.vmStart < vma.vmEnd) := by
  have here : (early ++ vma :: late)[early.length]? = some vma := by simp
  have others (other : Vma) : other ∈ early ++ late ↔
      ∃ i, i ≠ early.length ∧ (early ++ vma :: late)[i]? = some other := by
    have erased : (early ++ vma :: late).eraseIdx early.length = early ++ late := by simp [eraseIdx_append_of_length_le]
    rw [← erased, mem_eraseIdx_iff_getElem?]
  simp only [vmFindVmaOvrlap, here, Option.map_eq_none_iff, find?_eq_none, Prod.forall,
    mk_mem_zipIdx_iff_getElem?, others]
  constructor
  · rintro clear other ⟨i, apart, found⟩
    simpa [apart] using clear other i found
  · intro clear other i found
    simpa using fun apart => not_or.1 (clear other ⟨i, apart, found⟩)

theorem grow_wellFormed {early late : List Vma} {vma : Vma} {vmEnd : Nat}
    (wellFormed : WellFormed (early ++ vma :: late)) (filled : vma.vmStart < vma.vmEnd) (larger : vma.vmEnd ≤ vmEnd)
    (clear : vmFindVmaOvrlap (growVma (early ++ vma :: late) early.length vmEnd) early.length = none) :
    WellFormed (growVma (early ++ vma :: late) early.length vmEnd) := by
  rw [growVma_split] at clear ⊢
  refine wellFormed.resize rfl (by simp only; omega) ?_
  intro other member
  have apart := vmFindVmaOvrlap_none_iff.1 clear other (mem_append_right early member)
  have later := Separated.head (wellFormed.sublist (sublist_append_right early _)) member
  simp only at apart ⊢
  omega

end JinyKernel.Vm
