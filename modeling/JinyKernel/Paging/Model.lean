import JinyKernel.Machine

-- arch/x86_64/paging.c: `pool` is what `alloc_page` returns next; `none` is `BUG()` or the null page.

namespace JinyKernel.Paging

structure PcRegion where
  startAddr : Nat
  len : Nat

namespace PcRegion

variable (pc : PcRegion)

def pcStartaddr : Nat := (pc.startAddr + pageSize) / pageSize * pageSize
def pcEndaddr : Nat := pc.pcStartaddr + pc.len
def isPcPaddr (paddr : Nat) : Bool := decide (pc.pcStartaddr < paddr ∧ paddr ≤ pc.pcEndaddr)

def frames (frame : Nat) : Bool :=
  decide (pc.pcStartaddr / pageSize ≤ frame ∧ frame < pc.pcStartaddr / pageSize + pc.len / pageSize)

end PcRegion

structure MmStruct where
  pgd : Nat
  statPageAllocs : Nat
  statPageFree : Nat

structure State where
  mem : Nat -> Nat -> Nat
  pool : List Nat
  freed : List (Nat × Nat)
  kernelLevel3Entries : List Nat
  mm : MmStruct

def maxKernelEntries : Nat := 10
def kernelPagesLevel : Nat := 3

def bootTable : Nat := 0x103000

variable (entry : Nat)

def physAddr : Nat := entry / pageSize * pageSize
def frameOf : Nat := entry / pageSize
def present : Bool := entry % 2 = 1
def ps : Bool := entry / 128 % 2 = 1

def isLeaf (level entry : Nat) : Bool := (level = 2 && ps entry) || level = 1

def tableIndex (addr level : Nat) : Nat := addr / (pageSize * 512 ^ (level - 1)) % 512

def State.write (s : State) (table index entry : Nat) : State :=
  { s with mem := Function.update s.mem table (Function.update (s.mem table) index entry) }

@[simp]
theorem State.write_pool (s : State) (table index entry : Nat) : (s.write table index entry).pool = s.pool := rfl

variable {s : State} {table index entry frame : Nat}

theorem State.write_row (other : frame ≠ table) :
    (s.write table index entry).mem frame = s.mem frame := Function.update_of_ne other _ _

@[simp]
theorem State.write_word (s : State) (table index entry : Nat) : (s.write table index entry).mem table index = entry := by
  simp [State.write]

theorem State.write_word_ne {word : Nat} (other : word ≠ index) :
    (s.write table index entry).mem table word = s.mem table word := by
  simp [State.write, Function.update_of_ne other]

def State.copyPage (s : State) (dest src : Nat) : State :=
  { s with mem := Function.update s.mem dest (s.mem src) }

@[simp]
theorem State.copyPage_pool (s : State) (dest src : Nat) : (s.copyPage dest src).pool = s.pool := rfl

@[simp]
theorem State.copyPage_row (s : State) (dest src : Nat) : (s.copyPage dest src).mem dest = s.mem src :=
  Function.update_self ..

theorem State.copyPage_ne {dest src : Nat} (other : frame ≠ dest) :
    (s.copyPage dest src).mem frame = s.mem frame := Function.update_of_ne other _ _

def checkKernelPtableEntry (entries : List Nat) (physAddr : Nat) : Bool := entries.contains physAddr

def mmPagealloc (s : State) : Option (Nat × State) :=
  match s.pool with
  | [] => none
  | frame :: rest => some (frame,
      { s with
        mem := Function.update s.mem frame fun _ => 0
        pool := rest
        mm := { s.mm with statPageAllocs := s.mm.statPageAllocs + 1 } })

def copyEntry (pc : PcRegion) (below : Nat -> Nat -> State -> Option State) (level src dest : Nat)
    (s : State) (index : Nat) : Option State :=
  let entry := s.mem src index
  if entry = 0 then some s
  else if isLeaf level entry then
    if pc.isPcPaddr (physAddr entry) then some (s.write dest index entry)
    else do
      let (nv, s) ← mmPagealloc s
      some ((s.copyPage nv (frameOf entry)).write dest index (nv * pageSize + entry % pageSize))
  else if level = kernelPagesLevel ∧ index = 0 ∧ physAddr entry = bootTable then some (s.write dest index 0)
  -- Kernel pages: the table itself is linked instead of a copy.
  else if level = kernelPagesLevel ∧ checkKernelPtableEntry s.kernelLevel3Entries (physAddr entry) then
    some (s.write dest index entry)
  else do
    let (nv, s) ← mmPagealloc s
    let s ← below (frameOf entry) nv s
    some (s.write dest index (nv * pageSize + 7))

def copyPagetable (pc : PcRegion) : Nat -> Nat -> Nat -> State -> Option State
  | 0, _, _, s => some s
  | level + 1, src, dest, s =>
    (List.range 512).foldlM (copyEntry pc (copyPagetable pc level) (level + 1) src dest) s

def addKernelEntry (entries : List Nat) (entry : Nat) : Option (List Nat) :=
  if entries.contains (physAddr entry) ∨ physAddr entry = 0 then some entries
  else if maxKernelEntries ≤ entries.length + 1 then none
  else some (entries ++ [physAddr entry])

def kernelWords (mem : Nat -> Nat -> Nat) (pgd : Nat) : List Nat :=
  (List.range 512).flatMap fun index =>
    if physAddr (mem pgd index) = 0 then [] else (List.range 512).map (mem (frameOf (mem pgd index)))

def copyKernelPagetableEntries (mem : Nat -> Nat -> Nat) (pgd : Nat) : Option (List Nat) := do
  let entries ← (kernelWords mem pgd).foldlM addKernelEntry []
  if entries.length = 0 then none else some entries

-- The kernel entries are collected at the first copy of the kernel's table.
def kernelEntries (srcMm : MmStruct) (srcIsKernel : Bool) (mem : Nat -> Nat -> Nat) (known : List Nat) :
    Option (List Nat) :=
  if known.length = 0 ∧ srcIsKernel then copyKernelPagetableEntries mem (frameOf srcMm.pgd) else some known

def arDupPageTable (pc : PcRegion) (srcMm : MmStruct) (srcIsKernel : Bool) (s : State) : Option (Nat × State) :=
  if srcMm.pgd = 0 then some (0, s)
  else do
    guard (s.mm.pgd = 0)
    let (v, s) ← mmPagealloc s
    let s := { s with mm := { s.mm with pgd := v * pageSize, statPageAllocs := s.mm.statPageAllocs + 1 } }
    let entries ← kernelEntries srcMm srcIsKernel s.mem s.kernelLevel3Entries
    let s ← copyPagetable pc 4 (frameOf srcMm.pgd) v { s with kernelLevel3Entries := entries }
    some (1, s)

def putFreePages (s : State) (frame order : Nat) : State :=
  { s with
    freed := s.freed ++ [(frame, order)]
    mm := { s.mm with statPageFree := s.mm.statPageFree + 2 ^ order } }

def maxEntry (level : Nat) : Nat := pageSize * 512 ^ (level - 1)

def clearEntry (pc : PcRegion) (below : Nat -> Nat -> State -> Bool × State) (level table startAddr : Nat)
    (s : State) (index : Nat) : State :=
  let entry := s.mem table index
  if entry = 0 then s
  else if level = kernelPagesLevel ∧ checkKernelPtableEntry s.kernelLevel3Entries (physAddr entry) then
    s.write table index 0
  else if isLeaf level entry then
    if pc.isPcPaddr (physAddr entry) then s.write table index 0
    else (putFreePages s (frameOf entry) (if level = 1 then 0 else 9)).write table index 0
  else
    let (deleted, s) := below (frameOf entry) (wrap (startAddr + index * maxEntry level)) s
    if deleted then s.write table index 0 else s

-- The bounds of the loop are `unsigned int`; `len == 0` has already returned.
def clearBounds (level addr len startAddr : Nat) : Nat × Nat :=
  let first := if addr < startAddr then 0 else (addr - startAddr) / maxEntry level % 2 ^ 32
  let tableLen := if addr < startAddr then wrapSub len (startAddr - addr) else wrap (addr - startAddr + len)
  (first, min 512 (tableLen / maxEntry level % 2 ^ 32))

def clearPagetable (pc : PcRegion) (addr len : Nat) : Nat -> Nat -> Nat -> State -> Bool × State
  | 0, _, _, s => (false, s)
  | level + 1, table, startAddr, s =>
    if table = 0 ∨ len = 0 then (false, s)
    else
      let (first, maxI) := clearBounds (level + 1) addr len startAddr
      let s := (List.range' first (maxI - first)).foldl
        (clearEntry pc (clearPagetable pc addr len level) (level + 1) table startAddr) s
      if (List.range 512).all fun index => s.mem table index = 0 then (true, putFreePages s table 0)
      else (false, s)

-- `kernelDir`: the table is `g_kernel_page_dir` and the task no `HP_thread`.
def arPageTableCleanup (pc : PcRegion) (kernelDir : Bool) (addr length : Nat) (s : State) : Nat × State :=
  if s.mm.pgd = 0 ∨ kernelDir then (0, s)
  else
    let (deleted, s) := clearPagetable pc addr length 4 (frameOf s.mm.pgd) 0 s
    if deleted then (1, { s with mm := { s.mm with pgd := 0 } }) else (0, s)

def pagesOf (level entry : Nat) : List Nat := List.range' (frameOf entry) (512 ^ (level - 1))

theorem tableIndex_lt (addr level : Nat) : tableIndex addr level < 512 := Nat.mod_lt _ (by decide)

end JinyKernel.Paging
