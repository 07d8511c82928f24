import JinyKernel.Machine

-- pipe.cc: a call runs in sections that hold `g_inode_lock`.

namespace JinyKernel.Pipe

def maxPipeBufs : Nat := 20

structure Buf where
  data : Option (List UInt8) := none
  size : Nat := 0
  startOffset : Nat := 0
  deriving DecidableEq

structure Entry where
  bufs : Nat -> Buf
  inIndex : Nat
  outIndex : Nat
  count : Int

def fsCreatePipe : Entry where
  bufs _ := {}
  inIndex := 0
  outIndex := 0
  count := 2

variable (p : Entry)

def fsDestroyPipe : Entry :=
  let count := p.count - 1
  if count = 0 then { p with count := count, bufs := fun j => if j < maxPipeBufs then {} else p.bufs j }
  else { p with count := count }

def utMemcpy (dest src : List UInt8) (len : Nat) : List UInt8 := src.take len ++ dest.drop len

inductive Phase where
  | restart
  | blocked
  deriving DecidableEq

structure Send where
  buf : List UInt8
  maxSize : Nat
  consumedLen : Nat
  leftLen : Nat
  phase : Phase

def fsSendToPipe (buf : List UInt8) : Send := ⟨buf, pageSize, 0, buf.length, .restart⟩

-- The pipe, the bytes put into it, and the call unless it has returned; `page` is the fresh page.
def sendSection (call : Send) (page : List UInt8) : Entry × List UInt8 × Option Send :=
  let out := p.outIndex
  if (p.bufs out).data = none then
    let maxSize := if call.leftLen < call.maxSize then call.leftLen else call.maxSize
    let src := call.buf.drop call.consumedLen
    let leftLen := call.leftLen - maxSize
    ({ p with
        bufs := Function.update p.bufs out ⟨some (utMemcpy page src maxSize), maxSize, 0⟩
        outIndex := (out + 1) % maxPipeBufs },
      src.take maxSize,
      if leftLen > 0 then some ⟨call.buf, maxSize, call.consumedLen + maxSize, leftLen, .restart⟩ else none)
  else (p, [], some { call with phase := .blocked })

def sendBlocked (call : Send) : Option Send :=
  if p.count > 1 then some { call with phase := .restart } else none

structure Recv where
  index : Nat
  len : Nat
  nonblock : Bool
  phase : Phase

-- Up to the first lock: `in_index` is kept, and an empty pipe gives `EAGAIN` to `O_NONBLOCK`.
def fsRecvFromPipe (len : Nat) (nonblock : Bool) : Option Recv :=
  if (p.bufs p.inIndex).data = none ∧ nonblock then none else some ⟨p.inIndex, len, nonblock, .restart⟩

def recvSection (call : Recv) : Entry × List UInt8 × Option Recv :=
  let buf := p.bufs call.index
  match buf.data with
  | some data =>
    let left := buf.size - buf.startOffset
    let maxSize := if call.len < left then call.len else left
    let startOffset := buf.startOffset + maxSize
    let out := (data.drop buf.startOffset).take maxSize
    if startOffset = buf.size then
      ({ p with
          bufs := Function.update p.bufs call.index {}
          inIndex := (p.inIndex + 1) % maxPipeBufs }, out, none)
    else ({ p with bufs := Function.update p.bufs call.index { buf with startOffset := startOffset } }, out, none)
  | none => (p, [], if call.nonblock then none else some { call with phase := .blocked })

def recvBlocked (call : Recv) : Option Recv :=
  if p.count > 1 then some { call with phase := .restart } else none

end JinyKernel.Pipe
