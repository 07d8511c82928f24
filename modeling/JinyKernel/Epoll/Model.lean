import JinyKernel.Files.Model

-- epoll.cc: a registration stands in `fds` and in `epoll_list` of the vinode.

namespace JinyKernel.Epoll

open Files Function

def maxEpollFds : Nat := 60
def maxEfdsPerFd : Nat := 5
def epollCtlAdd : Nat := 1
def epollCtlDel : Nat := 2

structure EpollStruct where
  fdCount : Nat := 0
  fds : Nat -> Int := fun _ => 0

structure Sys where
  fs : Fs
  epoll : Nat -> EpollStruct
  epollList : Nat -> Nat -> Option Nat

-- The loop over `fds`.
def findFd (epoll : EpollStruct) (fd : Int) : Option Nat :=
  (List.range (min epoll.fdCount maxEpollFds)).find? fun i => epoll.fds i = fd

variable (list : Nat -> Option Nat)

def freeEntry : Option Nat := (List.range maxEfdsPerFd).find? fun k => list k = none

variable (sys : Sys)

def setList (vinode : Nat) (list : Nat -> Option Nat) : Sys :=
  { sys with epollList := update sys.epollList vinode list }

def setEpoll (epollp : Nat) (epoll : EpollStruct) : Sys :=
  { sys with epoll := update sys.epoll epollp epoll }

-- When `epoll_list` is full the call fails with the descriptor already in `fds`.
def ctlAdd (epollp vinode : Nat) (fd : Int) : Int × Sys :=
  let epoll := sys.epoll epollp
  match findFd epoll fd with
  | some _ => (-1, sys)
  | none =>
    if epoll.fdCount ≥ maxEpollFds - 1 then (-1, sys)
    else
      let added := setEpoll sys epollp ⟨epoll.fdCount + 1, update epoll.fds epoll.fdCount fd⟩
      match freeEntry (sys.epollList vinode) with
      | some k => (0, setList added vinode (update (sys.epollList vinode) k (some epollp)))
      | none => (-1, added)

-- The loop over `j`, below `n`.
def lastUsed (list : Nat -> Option Nat) (k : Nat) : Nat -> Option Nat
  | 0 => none
  | n + 1 => if n > k ∧ list n ≠ none then some n else lastUsed list k n

def dropEntry (k : Nat) : Nat -> Option Nat :=
  let cleared := update list k none
  match lastUsed cleared k maxEfdsPerFd with
  | some j => update (update cleared k (cleared j)) j none
  | none => cleared

-- The loop goes on after it has found the object, and does not look at `k` again.
def dropEpoll (epollp : Nat) : Nat -> Option Nat :=
  (List.range maxEfdsPerFd).foldl (fun list k => if list k = some epollp then dropEntry list k else list) list

def dropFd (epoll : EpollStruct) (i : Nat) : EpollStruct :=
  let last := epoll.fdCount - 1
  let cleared := update epoll.fds i (-1)
  if i < last ∧ i < maxEpollFds then ⟨last, update (update cleared i (cleared last)) last (-1)⟩
  else ⟨last, cleared⟩

def ctlDel (epollp vinode : Nat) (fd : Int) : Int × Sys :=
  match findFd (sys.epoll epollp) fd with
  | none => (0, sys)
  | some i =>
    (0, setList (setEpoll sys epollp (dropFd (sys.epoll epollp) i)) vinode (dropEpoll (sys.epollList vinode) epollp))

def sysEpollCtl (efd op fd : Nat) : Except Stop (Int × Sys) := do
  let efilep ← fdToFile sys.fs efd
  if efilep = 0 ∨ (sys.fs.file efilep).type ≠ .eventPoll then .ok (-1, sys)
  else
    let epollp := (sys.fs.file efilep).vinode
    let filep ← fdToFile sys.fs fd
    if filep = 0 ∨ (sys.fs.file filep).type = .eventPoll ∨ (sys.fs.file filep).vinode = 0 then .ok (-1, sys)
    else
      let vinode := (sys.fs.file filep).vinode
      if op = epollCtlAdd then .ok (ctlAdd sys epollp vinode fd)
      else if op = epollCtlDel then .ok (ctlDel sys epollp vinode fd)
      else .ok (0, sys)

-- The other calls know nothing of epoll; memory for a new object is cleared.
def renew (fs : Fs) : Sys where
  fs := fs
  epoll e := if sys.fs.object e = none then {} else sys.epoll e
  epollList v := if sys.fs.object v = none then fun _ => none else sys.epollList v

end JinyKernel.Epoll
