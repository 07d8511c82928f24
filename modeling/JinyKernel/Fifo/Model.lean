import JinyKernel.Machine

-- `fifo_queue` (fs/socket.cc): an operation is one locked section; `none` is an access behind `data`.

namespace JinyKernel.Fifo

structure Entry where
  buf : Nat
  len : Nat
  flags : Int
  deriving DecidableEq

structure FifoUser where
  index : Nat
  count : Nat

structure FifoQueue where
  maxQueueLength : Int
  data : Nat -> Entry
  producer : FifoUser
  consumer : FifoUser

def init (maxQueueLength : Int) : FifoQueue :=
  { maxQueueLength := maxQueueLength, data := fun _ => ⟨0, 0, 0⟩, producer := ⟨0, 0⟩, consumer := ⟨0, 0⟩ }

variable (queue : FifoQueue)

def FifoQueue.entry (index : Nat) : Option Entry :=
  if (index : Int) < queue.maxQueueLength then some (queue.data index) else none

def FifoQueue.advance (user : FifoUser) : FifoUser :=
  { index := if (user.index + 1 : Int) ≥ queue.maxQueueLength then 0 else user.index + 1
    count := wrap (user.count + 1) }

def FifoQueue.produce (entry : Entry) : FifoQueue :=
  { queue with
    data := Function.update queue.data queue.producer.index entry
    producer := queue.advance queue.producer }

def addToQueue (buf : Nat) (len dataFlags : Int) : Option (Bool × FifoQueue) :=
  if buf = 0 ∨ len = 0 then some (false, queue)
  else do
    let entry ← queue.entry queue.producer.index
    if entry.buf = 0 ∧ entry.len = 0 then
      some (true, queue.produce ⟨buf, (len % 2 ^ 32).toNat, dataFlags⟩)
    else some (false, queue)

def peepFromQueue : Option (Option (Nat × Int × Int)) := do
  let entry ← queue.entry queue.consumer.index
  if entry.buf ≠ 0 ∧ entry.len ≠ 0 then some (some (entry.buf, toInt entry.len, entry.flags)) else some none

def FifoQueue.consume (entry : Entry) : FifoQueue :=
  { queue with
    data := Function.update queue.data queue.consumer.index { entry with buf := 0, len := 0 }
    consumer := queue.advance queue.consumer }

-- One turn of the loop of `remove_from_queue`.
def removeFromQueue : Option (Option (Nat × Int × Int) × FifoQueue) := do
  let entry ← queue.entry queue.consumer.index
  if entry.buf ≠ 0 ∧ entry.len ≠ 0 then
    some (some (entry.buf, toInt entry.len, entry.flags), queue.consume entry)
  else some (none, queue)

def bulkRemoveFromQueue (queue : FifoQueue) : Nat -> Option (List (Nat × Nat) × FifoQueue)
  | 0 => some ([], queue)
  | left + 1 => do
      let entry ← queue.entry queue.consumer.index
      if entry.buf ≠ 0 then
        let (rest, after) ← bulkRemoveFromQueue (queue.consume entry) left
        some ((entry.buf, entry.len) :: rest, after)
      else some ([], queue)

def queueSize : Nat := wrapSub queue.producer.count queue.consumer.count

end JinyKernel.Fifo
