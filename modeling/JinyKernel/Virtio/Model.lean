import JinyKernel.Machine
import JinyKernel.Shared.Cursors

-- virtio_queue.cc: heads come back in any order; `none` is `BUG()` or an endless chain.

namespace JinyKernel.Virtio

def errorVirtioEnospc : Int := 2

def uint16 (value : Nat) : Nat := value % 2 ^ 16

structure DescFlags where
  next : Bool := false
  write : Bool := false
  indirect : Bool := false
  deriving DecidableEq

structure Desc where
  addr : Nat := 0
  len : Nat := 0
  flags : DescFlags := {}
  next : Nat := 0
  deriving DecidableEq

structure UsedElem where
  id : Nat := 0
  len : Nat := 0
  deriving DecidableEq

structure VringQueue where
  num : Nat
  desc : Nat -> Desc
  availIdx : Nat := 0
  availRing : Nat -> Nat := fun _ => 0
  usedIdx : Nat := 0
  usedRing : Nat -> UsedElem := fun _ => {}
  numFree : Nat
  freeHead : Nat
  freeTail : Nat
  numAdded : Nat := 0
  lastUsedIdx : Nat := 0

def initVirtqueue (num : Nat) : VringQueue where
  num := num
  desc i := { next := if i + 1 < num then i + 1 else 0 }
  numFree := num
  freeHead := 0
  freeTail := num - 1

variable (vq : VringQueue)

def VringQueue.setDesc (i : Nat) (desc : Desc) : VringQueue :=
  { vq with desc := Function.update vq.desc i desc }

def syncAvialIdx : VringQueue :=
  { vq with availIdx := uint16 (vq.availIdx + vq.numAdded), numAdded := 0 }

def detachLoop : Nat -> VringQueue -> Nat -> Option (VringQueue × Nat)
  | 0, _, _ => none
  | fuel + 1, vq, i =>
    let cleared := vq.setDesc i { vq.desc i with addr := 0 }
    if (vq.desc i).flags.next then
      detachLoop fuel { cleared with numFree := vq.numFree + 1 } (vq.desc i).next
    else some (cleared, i)

-- A link is 16 bits wide, so a chain that ends does so within `2 ^ 16` descriptors.
def detachBuf (head : Nat) : Option VringQueue :=
  if (vq.desc head).flags.indirect then none
  else do
    let (vq, i) ← detachLoop (2 ^ 16) vq head
    -- the test for an empty list: `free_head` is unsigned and compared with -1
    let vq := if vq.freeHead = 2 ^ 32 - 1 then { vq with freeHead := head }
      else vq.setDesc vq.freeTail { vq.desc vq.freeTail with next := uint16 head }
    some { vq with freeTail := i, numFree := vq.numFree + 1 }

def moreUsed : Bool := vq.lastUsedIdx != vq.usedIdx

def VringQueue.nextUsed : UsedElem := vq.usedRing (vq.lastUsedIdx % vq.num)

-- Taking one completed chain; `checked` is the further break point of `BulkRemoveFromQueue`.
def takeUsed (checked : Bool) (vq : VringQueue) : Option VringQueue :=
  let i := vq.nextUsed.id
  if i ≥ vq.num then none
  else if checked ∧ (vq.desc i).addr = 0 then none
  else do
    let vq ← detachBuf vq i
    some { vq with lastUsedIdx := uint16 (vq.lastUsedIdx + 1) }

def virtioRemoveFromQueue : Option VringQueue :=
  if moreUsed vq then takeUsed false vq else some vq

def removeLoop : Nat -> VringQueue -> Option VringQueue
  | 0, vq => some vq
  | count + 1, vq => do
    let vq ← takeUsed true vq
    removeLoop count vq

def bulkRemoveFromQueue (listLen : Int) : Option VringQueue :=
  let pktsLength := Cursors.distance (2 ^ 16) vq.lastUsedIdx vq.usedIdx
  if pktsLength = 0 then some vq
  else removeLoop (if (pktsLength : Int) > listLen then (listLen % 2 ^ 16).toNat else pktsLength) vq

structure Part where
  write : Bool
  addr : Nat
  len : Nat

-- The loop ends with the descriptor behind those filled and the last one filled; `checked` are break points.
def fillLoop (checked : Bool) : List Part -> VringQueue -> Nat -> Nat -> Option (VringQueue × Nat × Nat)
  | [], vq, i, prev => some (vq, i, prev)
  | part :: rest, vq, i, _ =>
    if checked ∧ ((vq.desc i).addr ≠ 0 ∨ part.addr = 0) then none
    else
      let desc : Desc :=
        { addr := part.addr, len := part.len, flags := { next := true, write := part.write }, next := (vq.desc i).next }
      fillLoop checked rest (vq.setDesc i desc) desc.next i

def postChain (checked : Bool) (vq : VringQueue) (parts : List Part) : Option VringQueue := do
  let head := vq.freeHead
  let (vq, i, prev) ← fillLoop checked parts { vq with numFree := vq.numFree - parts.length } vq.freeHead 0
  -- the last one does not continue
  let last := vq.desc prev
  let vq := vq.setDesc prev { last with flags := { last.flags with next := false } }
  some { vq with
    freeHead := i
    availRing := Function.update vq.availRing ((vq.availIdx + vq.numAdded) % vq.num) (uint16 head)
    numAdded := vq.numAdded + 1 }

def virtioAddBufToQueue (out into : List (Nat × Nat)) : Option (Int × VringQueue) :=
  if out.length + into.length > vq.num ∨ out.length + into.length = 0 then none
  else if vq.numFree < out.length + into.length then some (-errorVirtioEnospc, vq)
  else do
    let parts := out.map (fun (addr, len) => ⟨false, addr, len⟩) ++ into.map fun (addr, len) => ⟨true, addr, len⟩
    let vq ← postChain false vq parts
    let vq := syncAvialIdx vq
    some (vq.numFree, vq)

inductive VirtioType where
  | net
  | block
  deriving DecidableEq

def VirtioType.scatterListSize : VirtioType -> Nat
  | .net => 2
  | .block => 3

structure Mbuf where
  buf : Nat
  len : Int
  diskIn : Bool := false
  userData : Nat := 0

def scatterList (type : VirtioType) (fromList readOnly : Bool) (mbuf : Mbuf) : List Part :=
  match type with
  | .net =>
    let data := if fromList then wrapSub mbuf.buf 10 else mbuf.buf
    [⟨!readOnly, pa data, 10⟩, ⟨!readOnly, wrap (pa data + 10), (mbuf.len % 2 ^ 32).toNat⟩]
  | .block =>
    let data := if mbuf.userData = 0 then wrap (mbuf.buf + 16 + 8 + 8) else mbuf.userData
    [⟨false, pa mbuf.buf, 16⟩,
      ⟨mbuf.diskIn, pa data, (if mbuf.len < 512 then 512 else mbuf.len).toNat⟩,
      ⟨true, pa (wrap (mbuf.buf + 16)), 1⟩]

def addLoop (type : VirtioType) (fromList readOnly : Bool) : List Mbuf -> VringQueue -> Option (Nat × VringQueue)
  | [], vq => some (0, vq)
  | mbuf :: rest, vq =>
    if vq.numFree < type.scatterListSize then some (0, vq)
    else if mbuf.buf = 0 then addLoop type fromList readOnly rest vq
    else do
      let vq ← postChain true vq (scatterList type fromList readOnly mbuf)
      let (ret, vq) ← addLoop type fromList readOnly rest vq
      some (ret + 1, vq)

def bulkAddToQueue (type : VirtioType) (vq : VringQueue) (mbufs : List Mbuf) (fromList readOnly : Bool) :
    Option (Nat × VringQueue) := do
  let (ret, vq) ← addLoop type fromList readOnly mbufs vq
  some (ret, if ret > 0 then syncAvialIdx vq else vq)

structure System where
  queue : VringQueue
  hostNext : Nat := 0
  held : List Nat := []

inductive Event where
  | addBuf (out into : List (Nat × Nat))
  | bulkAdd (type : VirtioType) (mbufs : List Mbuf) (fromList readOnly : Bool)
  | remove
  | bulkRemove (listLen : Int)
  | hostTake
  | hostComplete (head len : Nat)

def step (s : System) : Event -> Option System
  | .addBuf out into => do
    let (_, vq) ← virtioAddBufToQueue s.queue out into
    some { s with queue := vq }
  | .bulkAdd type mbufs fromList readOnly => do
    let (_, vq) ← bulkAddToQueue type s.queue mbufs fromList readOnly
    some { s with queue := vq }
  | .remove => do
    let vq ← virtioRemoveFromQueue s.queue
    some { s with queue := vq }
  | .bulkRemove listLen => do
    let vq ← bulkRemoveFromQueue s.queue listLen
    some { s with queue := vq }
  | .hostTake =>
    if s.hostNext = s.queue.availIdx then none
    else some { s with
      hostNext := uint16 (s.hostNext + 1)
      held := s.held ++ [s.queue.availRing (s.hostNext % s.queue.num)] }
  | .hostComplete head len =>
    if head ∈ s.held then
      let vq := s.queue
      some { s with
        held := s.held.erase head
        queue := { vq with
          usedRing := Function.update vq.usedRing (vq.usedIdx % vq.num) ⟨head, len⟩
          usedIdx := uint16 (vq.usedIdx + 1) } }
    else none

end JinyKernel.Virtio
