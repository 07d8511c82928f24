import JinyKernel.Machine

-- mm/vm.cc: `mm->mmap` is a list, head first, and a pointer into it an index; `none` is `BUG()`.

namespace JinyKernel.Vm

def mapFixed : Nat := 0x10
def mapAnonymous : Nat := 0x20
def protRead : Nat := 0x4
def protWrite : Nat := 0x2
def userAnonymousAddr : Nat := 0x7fff00000000
def brkLimit : Nat := 0x40000000

structure Vma where
  vmStart : Nat
  vmEnd : Nat
  name : String
  vmProt : Nat
  vmFlags : Nat
  vmInode : Option Nat
  vmPrivateData : Nat
  hugepagesEnabled : Bool
  deriving DecidableEq

structure Mm where
  mmap : List Vma
  brkAddr : Nat
  brkLen : Nat
  anonymousAddr : Nat
  inodeCount : Nat -> Int

structure Task where
  kernelMm : Bool
  hpThread : Bool
  userHugepages : Bool

structure File where
  vinode : Option Nat
  stSize : Nat

-- `slab` tells whether `mm_slab_cache_alloc` finds room for one more VMA.
structure MmapArgs where
  file : Option File
  addr : Nat
  len : Nat
  prot : Nat
  flags : Nat
  pgoff : Nat
  name : String
  slab : Bool

def emptyMm : Mm := { mmap := [], brkAddr := 0, brkLen := 0, anonymousAddr := 0, inodeCount := fun _ => 0 }

def countInode (counts : Nat -> Int) (inode : Option Nat) (change : Int) : Nat -> Int :=
  match inode with
  | none => counts
  | some inode => Function.update counts inode (counts inode + change)

def linkFrom (vma : Vma) : Bool -> List Vma -> Int × List Vma
  | _, [] => (-3, [])
  | first, tmp :: rest =>
    if tmp.vmEnd ≤ vma.vmStart then
      match rest.head? with
      | none => (1, [tmp, vma])
      | some next =>
        if vma.vmEnd ≤ next.vmStart then (2, tmp :: vma :: rest)
        else
          let (ret, linked) := linkFrom vma false rest
          (ret, tmp :: linked)
    else if vma.vmEnd < tmp.vmStart then
      if first then (1, vma :: tmp :: rest) else (-1, tmp :: rest)
    else (-2, tmp :: rest)

def vmaLink (mm : Mm) (vma : Vma) : Int × Mm :=
  let (ret, mmap) := if mm.mmap = [] then (1, [vma]) else linkFrom vma true mm.mmap
  if 0 ≤ ret then (ret, { mm with mmap := mmap, inodeCount := countInode mm.inodeCount vma.vmInode 1 })
  else (ret, mm)

-- `slab` tells for which areas there is room for a copy.
def vmDupVmaps (slab : Vma -> Bool) (mmap : List Vma) (dest : Mm) : Option Mm :=
  mmap.foldlM (fun dest vma => if slab vma ∧ 0 ≤ (vmaLink dest vma).1 then some (vmaLink dest vma).2 else none) dest

def vmaUnlink (mm : Mm) (index : Nat) : Int × Mm :=
  match mm.mmap[index]? with
  | none => (-1, mm)
  | some vma => (1, { mm with
      mmap := mm.mmap.eraseIdx index
      inodeCount := countInode mm.inodeCount vma.vmInode (-1) })

def vmFindVma (mmap : List Vma) (addr len : Nat) : Option Nat :=
  mmap.findIdx? fun vma => decide (vma.vmStart ≤ addr) && decide (wrap (addr + len) ≤ vma.vmEnd)

-- Another area that reaches into the one at `index` or begins inside it.
def vmFindVmaOvrlap (mmap : List Vma) (index : Nat) : Option Vma :=
  match mmap[index]? with
  | none => none
  | some new =>
    let meets (vma : Vma) : Bool :=
      (decide (vma.vmStart < new.vmStart) && decide (new.vmStart < vma.vmEnd)) ||
        (decide (new.vmStart < vma.vmStart) && decide (vma.vmStart < new.vmEnd))
    (mmap.zipIdx.find? fun (vma, i) => i != index && meets vma).map Prod.fst

def mmapLink (mm : Mm) (vma : Vma) : Nat × Mm :=
  let linked := vmaLink mm vma
  (if linked.1 < 0 then 0 else vma.vmStart, linked.2)

def newVma (args : MmapArgs) : Vma :=
  { vmStart := args.addr
    vmEnd := wrap (args.addr + args.len)
    name := args.name
    vmProt := args.prot
    vmFlags := args.flags
    vmInode := none
    vmPrivateData := args.pgoff
    hugepagesEnabled := false }

def fileVma (args : MmapArgs) (file : File) : Vma :=
  match file.vinode with
  | none => newVma args
  | some inode => { newVma args with
      vmFlags := args.flags ||| mapFixed
      vmInode := some inode
      vmEnd := if file.stSize < args.len then wrap (args.addr + file.stSize) else wrap (args.addr + args.len) }

variable (task : Task)

variable (mm : Mm)

variable (args : MmapArgs)

-- `anonymous_addr` moves whether or not the link succeeds.
def placeAnonymous : Nat × Mm :=
  let vma := { newVma args with
    name := if task.hpThread then "hp_anonymous" else "anonymous"
    vmStart := mm.anonymousAddr
    vmEnd := wrap (mm.anonymousAddr + args.len)
    hugepagesEnabled := decide (args.name = "syscall") && task.userHugepages }
  mmapLink { mm with anonymousAddr := wrap (mm.anonymousAddr + args.len) } vma

def growVma (mmap : List Vma) (index vmEnd : Nat) : List Vma :=
  mmap.modify index fun vma => { vma with vmEnd := vmEnd }

def mmapAnonymous : Nat × Mm :=
  if mm.anonymousAddr = 0 then placeAnonymous task { mm with anonymousAddr := userAnonymousAddr } args
  else
    match vmFindVma mm.mmap (wrapSub mm.anonymousAddr 100) 10 with
    | none => placeAnonymous task mm args
    | some index =>
      match mm.mmap[index]? with
      | none => placeAnonymous task mm args
      | some anonVma =>
        let grown := growVma mm.mmap index (wrap (anonVma.vmEnd + args.len))
        if vmFindVmaOvrlap grown index = none then
          (wrapSub (wrap (anonVma.vmEnd + args.len)) args.len, { mm with mmap := grown })
        else placeAnonymous task mm args

def MmapArgs.Anonymous (task : Task) : Prop :=
  args.flags &&& mapAnonymous ≠ 0 ∧ args.addr = 0 ∧ (task.kernelMm = false ∨ task.hpThread = true)

instance (args : MmapArgs) (task : Task) : Decidable (args.Anonymous task) :=
  inferInstanceAs (Decidable (_ ∧ _))

def vmMmap : Option (Nat × Mm) :=
  match vmFindVma mm.mmap args.addr args.len with
  | some index => some (args.addr, { mm with
      mmap := mm.mmap.modify index fun vma => { vma with vmFlags := args.flags, vmProt := args.prot } })
  | none =>
    if task.kernelMm = false ∧ kernelCodeStart ≤ args.addr ∧ args.addr < kaddrspaceEnd then none
    else if args.slab = false then some (0, mm)
    else
      match args.file with
      | some file => some (mmapLink mm (fileVma args file))
      | none =>
        if args.Anonymous task then some (mmapAnonymous task mm args)
        else some (mmapLink mm (newVma args))

def brkStart (addr : Nat) : Nat := pageMask (wrap (addr + pageSize))

variable (addr len : Nat)

def setupBrkArgs (slab : Bool) : MmapArgs :=
  { file := none
    addr := brkStart addr
    len := pageAlign len
    prot := protRead ||| protWrite
    flags := mapAnonymous
    pgoff := 0
    name := if task.hpThread then "hp_anon_brk" else "anon_brk"
    slab := slab }

def vmSetupBrk (slab : Bool) : Option (Nat × Mm) :=
  if pageAlign len = 0 then some (addr, mm)
  else vmMmap task { mm with brkAddr := brkStart addr, brkLen := pageAlign len } (setupBrkArgs task addr len slab)

def sysVmBrk (addr : Nat) : Option (Nat × Mm) :=
  if addr = 0 then some (wrap (mm.brkAddr + mm.brkLen), mm)
  else if wrapSub addr mm.brkLen < mm.brkAddr then some (0, mm)
  else do
    let index ← vmFindVma mm.mmap mm.brkAddr (wrapSub mm.brkLen 1)
    let vma ← mm.mmap[index]?
    if brkLimit < addr then some (0, mm)
    else if vma.vmEnd < addr then
      let grown := growVma mm.mmap index addr
      if vmFindVmaOvrlap grown index = none then
        some (addr, { mm with mmap := grown, brkLen := wrapSub addr mm.brkAddr })
      else some (2 ^ 64 - 1, mm)
    else some (addr, mm)

-- `cleared` are the ranges passed to `ar_pageTableCleanup`.
structure Unmapped where
  ret : Int
  mm : Mm
  cleared : List (Nat × Nat)

def unmaps (vma : Vma) : Bool :=
  decide (addr ≤ vma.vmStart) && decide (vma.vmEnd ≤ wrap (addr + len))

-- Every restart has unlinked one area, so as many rounds as areas are enough.
def munmapFrom (addr len : Nat) : Nat -> Unmapped -> Unmapped
  | 0, state => { state with ret := 0 }
  | rounds + 1, state =>
    if state.mm.mmap = [] then { state with ret := 0 }
    else
      match state.mm.mmap.findIdx? (unmaps addr len) with
      | none => { state with cleared := state.cleared ++ [(addr, len)] }
      | some index =>
        match state.mm.mmap[index]? with
        | none => state
        | some vma =>
          let (ret, mm) := vmaUnlink state.mm index
          munmapFrom addr len rounds
            { ret := ret + 1
              mm := mm
              cleared := state.cleared ++ [(vma.vmStart, wrapSub vma.vmEnd vma.vmStart)] }

def vmMunmap : Unmapped :=
  if len ≠ 2 ^ 64 - 1 ∧ pageAlign len = 0 then { ret := -1, mm := mm, cleared := [] }
  else munmapFrom addr len mm.mmap.length { ret := 0, mm := mm, cleared := [] }

end JinyKernel.Vm
