import JinyKernel.Paging.Model
import JinyKernel.Vm.Model

-- arch/x86_64/paging.c: `owned` and `leaves` are not kept by the code; `none` is `BUG()` or a null page.

namespace JinyKernel.Fault

open Paging Vm

def mapStack : Nat := 0x20000

structure Kernel where
  mmap : List Vma
  pgd : Nat
  phyMemSize : Nat

structure Space where
  paging : State
  vm : Mm
  blocks : List Nat
  owned : List Nat
  leaves : List (Nat × Nat)

inductive Outcome where
  | resolved (space : Space)
  | exited (code : Nat) (space : Space)

def mkPte (frame : Nat) (global user rw : Bool) : Nat :=
  frame % 2 ^ 40 * pageSize + global.toNat * 256 + 16 + user.toNat * 4 + rw.toNat * 2 + 1

def mkPde (frame : Nat) (largePage global user : Bool) : Nat :=
  frame % 2 ^ 40 * pageSize + global.toNat * 256 + largePage.toNat * 128 + 16 + user.toNat * 4 + 3

def writable (entry : Nat) : Bool := entry / 2 % 2 = 1

variable (kernel : Kernel)

def checkKernelAddress (addr : Nat) : Bool :=
  decide (kaddrspaceStart ≤ addr ∧ addr < kaddrspaceStart + kernel.phyMemSize)

def copyBytes (s : State) (dest src len : Nat) : State :=
  let copied (word : Nat) : Nat :=
    let part := 2 ^ (8 * min 8 (len - 8 * word))
    s.mem src word % part + s.mem dest word / part * part
  { s with mem := Function.update s.mem dest copied }

variable (user : Bool) (space : Space)

-- `mm_pagealloc(mm)`, where `user` says that `mm` is not `g_kernel_mm`.
def alloc : Option (Nat × Space) := do
  let (frame, paging) ← mmPagealloc space.paging
  if user then some (frame, { space with paging := paging, owned := frame :: space.owned })
  else some (frame, { space with paging := { paging with mm := space.paging.mm } })

def tableBelow (table index : Nat) : Option (Nat × Space) :=
  if physAddr (space.paging.mem table index) = 0 then do
    let (frame, space) ← alloc user space
    some (frame, { space with paging := space.paging.write table index (frame * pageSize + 7) })
  else some (frameOf (space.paging.mem table index), space)

def install (level table index entry : Nat) : Space :=
  { space with
    paging := space.paging.write table index entry
    leaves := if user then (level, entry) :: space.leaves else space.leaves }

def hugePage (vma : Vma) (pl2 addr : Nat) : Option Space :=
  if physAddr (space.paging.mem pl2 (tableIndex addr 2)) = 0 ∧ vma.vmFlags &&& mapAnonymous ≠ 0 ∧
      vma.hugepagesEnabled = true ∧ user = true then
    match space.blocks with
    | [] => none
    | hp :: rest =>
      let cleared := { space.paging with
        mem := fun frame => if hp ≤ frame ∧ frame < hp + 512 then fun _ => 0 else space.paging.mem frame
        mm := { space.paging.mm with statPageAllocs := space.paging.mm.statPageAllocs + 512 } }
      some (install user
        { space with paging := cleared, blocks := rest, owned := List.range' hp 512 ++ space.owned }
        2 pl2 (tableIndex addr 2) (mkPde hp true false user))
  else none

def fileLen (vma : Vma) (addr : Nat) : Nat :=
  (min (toInt (wrapSub (wrapSub vma.vmEnd vma.vmStart) (wrapSub (pageMask addr) vma.vmStart))) pageSize).toNat

-- The page of a `MAP_FIXED` area and `writeFlag`; `filePage` is the result of `fs_getVmaPage`.
def fixedPage (vma : Vma) (addr : Nat) (writeFault : Bool) (filePage : Nat) : Option (Nat × Bool × Space) :=
  let writeFlag := decide (vma.vmProt &&& protWrite ≠ 0)
  if vma.vmFlags &&& mapFixed = 0 then none
  else
    match vma.vmInode with
    | none => some (wrap (vma.vmPrivateData + wrapSub addr vma.vmStart), writeFlag, space)
    | some _ =>
      if filePage = 0 then none
      else if writeFault && writeFlag then do
        let (frame, space) ← alloc user space
        let copied := copyBytes space.paging frame (frameOf filePage) (fileLen vma addr)
        some (frame * pageSize, true, { space with paging := copied })
      -- The page of the page cache stays read-only until a write fault.
      else some (filePage, false, space)

def mapPage (pl1 addr page : Nat) (writeFlag : Bool) : Option Outcome :=
  if page = 0 then none
  else
    let entry := if kaddrspaceStart < addr ∧ user = false then mkPte (frameOf page) true false true
      else mkPte (frameOf page) false true writeFlag
    some (.resolved (install user space 1 pl1 (tableIndex addr 1) entry))

def faultIn (pgd : Nat) (space : Space) (vma : Vma) (addr : Nat) (writeFault : Bool) (filePage : Nat) :
    Option Outcome := do
  let (pl3, space) ← tableBelow user space (frameOf pgd) (tableIndex addr 4)
  let (pl2, space) ← tableBelow user space pl3 (tableIndex addr 3)
  match hugePage user space vma pl2 addr with
  | some space => some (.resolved space)
  | none =>
    let (pl1, space) ← tableBelow user space pl2 (tableIndex addr 2)
    if vma.vmFlags &&& mapAnonymous ≠ 0 then
      match alloc user space with
      | none => some (.exited 903 space)
      | some (frame, space) =>
        mapPage user space pl1 addr (frame * pageSize) (decide (vma.vmProt &&& protWrite ≠ 0))
    else
      let (page, writeFlag, space) ← fixedPage user space vma addr writeFault filePage
      mapPage user space pl1 addr page writeFlag

def handleMmFault (space : Space) (addr : Nat) (writeFault : Bool) (filePage : Nat) : Option Outcome :=
  match vmFindVma kernel.mmap (pageMask addr) 8 with
  | some index =>
    -- The word that `ar_modifypte` writes is left out.
    if checkKernelAddress kernel addr && writeFault then some (.resolved space)
    else if (kernelCodeStart ≤ addr ∧ addr ≤ kernelCodeStart + 0x200000) ∨ kernel.pgd = 0 then none
    else do
      let vma ← kernel.mmap[index]?
      faultIn false kernel.pgd space vma addr writeFault filePage
  | none =>
    if checkKernelAddress kernel addr && writeFault then none
    else if (kernelCodeStart ≤ addr ∧ addr ≤ kernelCodeStart + 0x200000) ∨ space.paging.mm.pgd = 0 then none
    else
      match vmFindVma space.vm.mmap (pageMask addr) 8 with
      | none => some (.exited 902 space)
      | some index => do
          let vma ← space.vm.mmap[index]?
          faultIn true space.paging.mm.pgd space vma addr writeFault filePage

-- A write to a page that is not present comes as no write fault.
def arPageFault (space : Space) (addr errcode filePage : Nat) : Option Outcome :=
  if errcode % 2 = 0 then handleMmFault kernel space addr false filePage
  else if errcode / 2 % 2 = 1 then handleMmFault kernel space addr true filePage
  else none

def syscallArgs (task : Task) (args : MmapArgs) : MmapArgs :=
  { args with
    -- `MAP_STACK` adds `PROT_READ` and takes away `PROT_EXEC`
    prot := if args.flags &&& mapStack ≠ 0 then (args.prot ||| protRead) / 2 * 2 else args.prot
    name := if task.hpThread then "hp_syscall_mmap" else "syscall_mmap" }

def sysVmMmap (task : Task) (mm : Mm) (args : MmapArgs) : Option (Nat × Mm) := vmMmap task mm (syscallArgs task args)

inductive Event where
  | mmap (args : MmapArgs)
  | fault (addr errcode filePage : Nat)

def step (task : Task) (space : Space) : Event -> Option Space
  | .mmap args => (sysVmMmap task space.vm args).map fun mapped => { space with vm := mapped.2 }
  | .fault addr errcode filePage =>
    match arPageFault kernel space addr errcode filePage with
    | some (.resolved next) => some next
    | _ => none

end JinyKernel.Fault
