import JinyKernel.Machine

-- fs_api.cc and file.cc: addresses are numbers, 0 is none; a destroyed object is `none`.

namespace JinyKernel.Files

def maxFds : Nat := 100

inductive FileType where
  | blank
  | network
  | output
  | input
  | outPipe
  | inPipe
  | devNull
  | eventPoll
  | socketpair
  | regular
  deriving DecidableEq

structure File where
  type : FileType := .blank
  vinode : Nat := 0
  deriving DecidableEq

inductive Kind where
  | pipe
  | socket
  | epoll
  | inode
  deriving DecidableEq

structure Object where
  kind : Kind
  count : Int
  nrpages : Nat := 0
  deriving DecidableEq

structure Fs where
  filep : Nat -> Nat
  total : Int
  file : Nat -> File
  object : Nat -> Option Object

-- A call that does not come back.
inductive Stop where
  | outOfRange (index : Int)
  | bug
  deriving DecidableEq

variable (fs : Fs)

def readFilep (i : Int) : Except Stop Nat :=
  if 0 ≤ i ∧ i < maxFds then .ok (fs.filep i.toNat) else .error (.outOfRange i)

def writeFilep (i : Int) (fp : Nat) : Except Stop Fs :=
  if 0 ≤ i ∧ i < maxFds then .ok { fs with filep := Function.update fs.filep i.toNat fp }
  else .error (.outOfRange i)

def fdToFile (fd : Int) : Except Stop Nat :=
  if fd ≥ 0 ∧ fs.total > fd then readFilep fs fd else .ok 0

def freeLoop (fs : Fs) : Nat -> Int -> Except Stop (Option Int)
  | 0, _ => .ok none
  | n + 1, i => do
    let fp ← readFilep fs i
    if fp = 0 then .ok (some i) else freeLoop fs n (i + 1)

def findFree (start : Int) : Except Stop (Option Int) := freeLoop fs (maxFds - start).toNat start

def store (i : Int) (fp : Nat) : Except Stop Fs :=
  writeFilep { fs with total := if i ≥ fs.total then i + 1 else fs.total } i fp

def setFile (fp : Nat) (file : File) : Fs := { fs with file := Function.update fs.file fp file }

def fsCreateFilep (inFp alloc : Nat) : Except Stop (Option (Int × Nat) × Fs) := do
  match ← findFree fs 3 with
  | none => .ok (none, fs)
  | some i =>
    if inFp ≠ 0 then .ok (some (i, inFp), ← store fs i inFp)
    else if alloc = 0 then .ok (none, fs)
    else .ok (some (i, alloc), ← store (setFile fs alloc {}) i alloc)

def fsDestroyFilep (fd : Int) : Except Stop Fs := do
  if fd < 0 ∨ fd > maxFds then .ok fs
  else
    let _ ← readFilep fs fd
    writeFilep fs fd 0

-- `close` of the four classes; an inode stays while it has pages.
def Object.close (object : Object) : Option Object :=
  let count := object.count - 1
  if count ≤ 0 ∧ (object.kind = .inode -> object.nrpages = 0) then none else some { object with count := count }

def Object.inc (object : Object) : Object := { object with count := object.count + 1 }

def vinodeClose (vinode : Nat) : Fs :=
  { fs with object := Function.update fs.object vinode ((fs.object vinode).bind Object.close) }

def vinodeInc (vinode : Nat) : Fs :=
  { fs with object := Function.update fs.object vinode ((fs.object vinode).map Object.inc) }

-- `EVENT_POLL_FILE` is not among them.
def FileType.closedByDup : FileType -> Bool
  | .regular | .network | .outPipe | .inPipe => true
  | _ => false

def dupClose (new : Nat) : Except Stop Fs :=
  if (fs.file new).type.closedByDup then
    if (fs.file new).vinode = 0 then .error .bug else .ok (vinodeClose fs (fs.file new).vinode)
  else .ok fs

def dupCopy (old new : Nat) : Except Stop Fs :=
  let file := fs.file old
  let copied := setFile fs new file
  match file.type with
  | .regular | .network => .ok (if file.vinode ≠ 0 then vinodeInc copied file.vinode else copied)
  | .outPipe | .inPipe | .eventPoll => if file.vinode = 0 then .error .bug else .ok (vinodeInc copied file.vinode)
  | _ => .ok copied

def fsDup (oldFilep newFilep alloc : Nat) : Except Stop (Nat × Fs) :=
  if oldFilep = 0 then .ok (0, fs)
  else if newFilep ≠ 0 then do
    let closed ← dupClose fs newFilep
    .ok (newFilep, ← dupCopy closed oldFilep newFilep)
  else if alloc ≠ 0 then do
    let closed ← dupClose (setFile fs alloc {}) alloc
    .ok (alloc, ← dupCopy closed oldFilep alloc)
  else .error .bug

def fsClose (fp : Nat) : Except Stop Fs :=
  if fp = 0 then .ok fs
  else do
    let vinode := (fs.file fp).vinode
    let fs ←
      match (fs.file fp).type with
      | .regular | .outPipe | .inPipe | .network =>
        if vinode ≠ 0 then .ok (vinodeClose fs vinode) else .error .bug
      | .eventPoll => .ok (if vinode ≠ 0 then vinodeClose fs vinode else fs)
      | _ => .ok fs
    .ok (setFile fs fp { fs.file fp with vinode := 0 })

def sysFsDup2 (fdOld fdNew : Int) (alloc : Nat) : Except Stop Fs := do
  let fpNew ← fdToFile fs fdNew
  let fpOld ← fdToFile fs fdOld
  if fpOld = 0 then .ok fs
  else
    let (fpNew, fs) ← fsDup fs fpOld fpNew alloc
    let fs ← writeFilep fs fdNew fpNew
    .ok { fs with total := if fdNew ≥ fs.total then fdNew + 1 else fs.total }

def sysFsDup (fdOld : Int) (alloc : Nat) : Except Stop Fs := do
  match ← findFree fs 3 with
  | none => .ok fs
  | some i => sysFsDup2 fs fdOld i alloc

def sysFsFcntlDupfd (fd args : Int) (alloc : Nat) : Except Stop Fs := do
  let fpOld ← fdToFile fs fd
  if fpOld = 0 ∨ alloc = 0 then .ok fs
  else
    let cleared := setFile fs alloc {}
    if args > fs.total ∧ args < maxFds then
      let stored ← store cleared args alloc
      .ok (← fsDup stored fpOld alloc 0).2
    else
      match ← findFree cleared args with
      | none => .ok fs
      | some i =>
        let stored ← store cleared i alloc
        .ok (← fsDup stored fpOld alloc 0).2

def sysFsClose (arg : Int) : Except Stop Fs := do
  let fd := toUlong arg
  if fd = 1 then .ok fs
  else
    let fp ← if toUlong fs.total > fd then readFilep fs fd else .ok 0
    if fp = 0 then .ok fs
    else
      let fs ← writeFilep fs fd 0
      fsClose fs fp

-- How `SYS_fs_open` goes. A new inode starts with one reference, and a second for the list when `stat`
-- succeeds.
inductive Opened where
  | devNull
  | socket (sock : Nat)
  | foundInode (inode : Nat)
  | newInode (inode : Nat) (stat : Bool)
  | failed (inodep : Nat)

def setObject (addr : Nat) (object : Object) : Fs :=
  { fs with object := Function.update fs.object addr (some object) }

-- Its error path closes `inodep`, set or not.
def fsOpen (alloc : Nat) : Opened -> Except Stop (Nat × Fs)
  | .devNull => .ok (0, fs)
  | .socket sock => .ok (alloc, setFile (setObject fs sock ⟨.socket, 1, 0⟩) alloc ⟨.network, sock⟩)
  | .foundInode inode => .ok (alloc, setFile (vinodeInc fs inode) alloc ⟨.regular, inode⟩)
  | .newInode inode stat =>
    .ok (alloc, setFile (setObject fs inode ⟨.inode, if stat then 2 else 1, 0⟩) alloc ⟨.regular, inode⟩)
  | .failed inodep => if inodep ≠ 0 then .error .bug else .ok (0, fs)

def sysFsOpen (alloc : Nat) : Opened -> Except Stop Fs
  | .devNull => do
    match ← fsCreateFilep fs 0 alloc with
    | (none, fs) => .ok fs
    | (some (_, fp), fs) => .ok (setFile fs fp { fs.file fp with type := .devNull })
  | opened => do
    let (fp, fs) ← fsOpen fs alloc opened
    if fp = 0 then .ok fs
    else
      match ← fsCreateFilep fs fp 0 with
      | (none, fs) => fsClose fs fp
      | (some _, fs) => .ok fs

def sysPipe (wfp rfp wpipe rpipe : Nat) (created : Bool) : Except Stop Fs := do
  match ← fsCreateFilep fs 0 wfp with
  | (none, fs) => .ok fs
  | (some (fd1, wfp), fs) =>
    match ← fsCreateFilep fs 0 rfp with
    | (none, fs) => fsDestroyFilep fs fd1
    | (some (fd0, rfp), fs) =>
      let fs := setFile (setFile fs wfp ⟨.outPipe, wpipe⟩) rfp ⟨.inPipe, rpipe⟩
      if created then .ok (setObject (setObject fs wpipe ⟨.pipe, 1, 0⟩) rpipe ⟨.pipe, 1, 0⟩)
      else fsDestroyFilep (← fsDestroyFilep fs fd0) fd1

-- `SYS_epoll_create` logs `filep->vinode` also when it got no file.
def sysEpollCreate (alloc epoll : Nat) : Except Stop Fs := do
  match ← fsCreateFilep fs 0 alloc with
  | (none, _) => .error .bug
  | (some (_, fp), fs) => .ok (setObject (setFile fs fp ⟨.eventPoll, epoll⟩) epoll ⟨.epoll, 1, 0⟩)

end JinyKernel.Files
