import JinyKernel.Fifo.Model
import JinyKernel.Shared.Ring

-- `fifo_queue` with what the buffers hold in the place of their addresses.

namespace JinyKernel.Fifo

open Function List Ring

structure ContentQueue (Buf : Type) where
  maxQueueLength : Nat
  data : Nat -> Option Buf := fun _ => none
  producer : Nat := 0
  consumer : Nat := 0

namespace ContentQueue

variable {Buf : Type} (queue : ContentQueue Buf)

def advance (index : Nat) : Nat := if index + 1 ≥ queue.maxQueueLength then 0 else index + 1

def Room : Prop := queue.data queue.producer = none

def addToQueue (buf : Buf) (len : Nat) : ContentQueue Buf :=
  if len = 0 then queue
  else match queue.data queue.producer with
    | none =>
      { queue with
        data := update queue.data queue.producer (some buf)
        producer := queue.advance queue.producer }
    | some _ => queue

def peepFromQueue : Option Buf := queue.data queue.consumer

-- A store through the pointer that `peep_from_queue` returned.
def writeFirst (buf : Buf) : ContentQueue Buf := { queue with data := update queue.data queue.consumer (some buf) }

def removeFromQueue : ContentQueue Buf :=
  match queue.data queue.consumer with
  | none => queue
  | some _ =>
    { queue with
      data := update queue.data queue.consumer none
      consumer := queue.advance queue.consumer }

def map {Other : Type} (f : Buf -> Other) : ContentQueue Other :=
  ⟨queue.maxQueueLength, fun i => (queue.data i).map f, queue.producer, queue.consumer⟩

structure Holding (items : List Buf) : Prop where
  ring : Holds queue.maxQueueLength queue.data queue.consumer items
  producer : queue.producer = tail queue.maxQueueLength queue.consumer items

variable {queue} {items : List Buf} {buf : Buf} {len : Nat}

theorem addToQueue_map {Other : Type} (f : Buf -> Other) (buf : Buf) (len : Nat) :
    (queue.addToQueue buf len).map f = (queue.map f).addToQueue (f buf) len := by
  rw [addToQueue, addToQueue]
  split_ifs
  · rfl
  cases entry : queue.data queue.producer with
  | none => simp [map, entry, advance, apply_update fun _ => Option.map f]
  | some other => simp [map, entry]

theorem addToQueue_refused (refused : ¬ (len ≠ 0 ∧ queue.Room)) : queue.addToQueue buf len = queue := by
  rw [addToQueue]
  split_ifs with empty
  · rfl
  · cases entry : queue.data queue.producer with
    | none => exact absurd ⟨empty, entry⟩ refused
    | some other => rfl

namespace Holding

theorem add (holding : Holding queue items) (room : queue.Room) (positive : len ≠ 0) :
    Holding (queue.addToQueue buf len) (items ++ [buf]) := by
  have free : queue.data queue.producer = none := room
  have inside : queue.producer < queue.maxQueueLength := by
    rw [holding.producer]
    exact Nat.mod_lt _ (Nat.zero_lt_of_lt holding.ring.inside)
  rw [addToQueue, if_neg positive, free]
  rw [holding.producer] at free
  constructor
  · dsimp only
    rw [holding.producer]
    exact holding.ring.push (holding.ring.tail_free.1 free) buf
  · dsimp only
    rw [tail_push, ← holding.producer, advance, next_index inside]

theorem peep (holding : Holding queue items) : queue.peepFromQueue = items.head? := holding.ring.start_slot

theorem replace (holding : Holding queue (buf :: items)) (other : Buf) :
    Holding (queue.writeFirst other) (other :: items) :=
  ⟨holding.ring.replace other, holding.producer⟩

theorem remove (holding : Holding queue (buf :: items)) : Holding queue.removeFromQueue items := by
  have first : queue.data queue.consumer = some buf := holding.peep
  rw [removeFromQueue, first]
  constructor
  · dsimp only
    rw [advance, next_index holding.ring.inside]
    exact holding.ring.pop
  · dsimp only
    rw [holding.producer, advance, next_index holding.ring.inside, tail_pop]

end Holding

-- `contents` is what the memory holds at the address of a buffer.
structure Views (contents : Nat -> Buf) (view : ContentQueue Buf) (queue : FifoQueue) : Prop where
  length : queue.maxQueueLength = view.maxQueueLength
  producer : queue.producer.index = view.producer
  consumer : queue.consumer.index = view.consumer
  inside : view.producer < view.maxQueueLength ∧ view.consumer < view.maxQueueLength
  slot : ∀ i, ((queue.data i).buf = 0 ↔ (queue.data i).len = 0) ∧
    view.data i = if (queue.data i).buf = 0 then none else some (contents (queue.data i).buf)

namespace Views

variable {contents : Nat -> Buf} {view : ContentQueue Buf} {queue : FifoQueue}

variable (views : Views contents view queue)

include views

theorem entry_eq {i : Nat} (inside : i < view.maxQueueLength) : queue.entry i = some (queue.data i) :=
  if_pos (by rw [views.length]; exact_mod_cast inside)

theorem advance_eq {user : FifoUser} {i : Nat} (here : user.index = i) (inside : i < view.maxQueueLength) :
    (queue.advance user).index = view.advance i ∧ view.advance i < view.maxQueueLength := by
  rw [FifoQueue.advance, ContentQueue.advance, views.length, here]
  dsimp only
  split_ifs <;> omega

theorem add {addr len : Nat} (valid : addr ≠ 0) (small : len < 2 ^ 32) (flags : Int) :
    ∃ taken after, Fifo.addToQueue queue addr len flags = some (taken, after) ∧
      Views contents (view.addToQueue (contents addr) len) after := by
  by_cases empty : len = 0
  · exact ⟨false, queue, by simp [Fifo.addToQueue, empty], by rwa [addToQueue, if_pos empty]⟩
  have entry := views.entry_eq views.inside.1
  have ⟨blank, slot⟩ := views.slot view.producer
  have nonzero : ¬ (addr = 0 ∨ (len : Int) = 0) := by omega
  have moved := views.advance_eq views.producer views.inside.1
  rw [Fifo.addToQueue, if_neg nonzero, views.producer, entry, addToQueue, if_neg empty]
  by_cases free : (queue.data view.producer).buf = 0
  · rw [slot, if_pos free]
    refine ⟨true, _, if_pos ⟨free, blank.1 free⟩, views.length, moved.1, views.consumer,
      ⟨moved.2, views.inside.2⟩, fun i => ?_⟩
    by_cases here : i = view.producer
    · have stored : 0 < (len : Int) % 4294967296 := by omega
      simp [FifoQueue.produce, views.producer, here, valid, stored]
    · simpa [FifoQueue.produce, views.producer, here] using views.slot i
  · rw [slot, if_neg free]
    exact ⟨false, queue, if_neg fun both => free both.1, views⟩

theorem peep : ∃ answer, Fifo.peepFromQueue queue = some answer ∧
    answer.map (fun entry => contents entry.1) = view.peepFromQueue := by
  have ⟨blank, slot⟩ := views.slot view.consumer
  rw [Fifo.peepFromQueue, views.consumer, views.entry_eq views.inside.2, peepFromQueue, slot]
  by_cases empty : (queue.data view.consumer).buf = 0
  · exact ⟨none, if_neg fun both => both.1 empty, by rw [if_pos empty]; rfl⟩
  · exact ⟨some _, if_pos ⟨empty, fun zero => empty (blank.2 zero)⟩, by rw [if_neg empty]; rfl⟩

theorem remove : ∃ answer after, Fifo.removeFromQueue queue = some (answer, after) ∧
    Views contents view.removeFromQueue after := by
  have ⟨blank, slot⟩ := views.slot view.consumer
  have moved := views.advance_eq views.consumer views.inside.2
  rw [Fifo.removeFromQueue, views.consumer, views.entry_eq views.inside.2, removeFromQueue, slot]
  by_cases empty : (queue.data view.consumer).buf = 0
  · rw [if_pos empty]
    exact ⟨none, queue, if_neg fun both => both.1 empty, views⟩
  · rw [if_neg empty]
    refine ⟨some _, _, if_pos ⟨empty, fun zero => empty (blank.2 zero)⟩, views.length, views.producer, moved.1,
      ⟨views.inside.1, moved.2⟩, fun i => ?_⟩
    by_cases here : i = view.consumer
    · simp [FifoQueue.consume, views.consumer, here]
    · simpa [FifoQueue.consume, views.consumer, here] using views.slot i

end Views

end ContentQueue

end JinyKernel.Fifo
