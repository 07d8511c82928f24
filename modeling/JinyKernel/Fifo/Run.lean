import JinyKernel.Fifo.Model
import JinyKernel.Shared.Ring
import JinyKernel.Shared.Run
import Mathlib.Data.List.Forall2

namespace JinyKernel.Fifo

open List Run Ring Function

structure Item where
  buf : Nat
  len : Int
  flags : Int

def Item.entry (item : Item) : Entry := ⟨item.buf, (item.len % 2 ^ 32).toNat, item.flags⟩

structure Item.Valid (item : Item) : Prop where
  buf : item.buf ≠ 0
  len : item.len ≠ 0
  low : -2 ^ 31 ≤ item.len
  high : item.len < 2 ^ 31

theorem Item.Valid.entry_len {item : Item} (valid : item.Valid) :
    toInt item.entry.len = item.len ∧ item.entry.len ≠ 0 := by
  have ⟨_, nonzero, low, high⟩ := valid
  have kept : ((item.len % 2 ^ 32).toNat : Int) = item.len % 2 ^ 32 :=
    Int.toNat_of_nonneg (Int.emod_nonneg _ (by decide))
  refine ⟨?_, ?_⟩
  · rw [entry, kept, ← toInt_eq low high]
    apply toInt_congr
    rw [Int.emod_emod, toInt_emod]
  · rw [entry]
    dsimp only
    omega

variable (queue : FifoQueue)

def FifoQueue.slot (index : Nat) : Option Entry :=
  if (queue.data index).buf = 0 then none else some (queue.data index)

def FifoQueue.size : Nat := queue.maxQueueLength.toNat

structure Tracked (items : List Item) : Prop where
  ring : Holds queue.size queue.slot queue.consumer.index (items.map Item.entry)
  producer : queue.producer.index = Ring.tail queue.size queue.consumer.index (items.map Item.entry)
  blank : ∀ index, (queue.data index).buf = 0 ↔ (queue.data index).len = 0
  valid : ∀ item ∈ items, item.Valid
  small : queue.maxQueueLength < 2 ^ 31
  counted : queue.consumer.count < 2 ^ 64
  counts : queue.producer.count = wrap (queue.consumer.count + items.length)

section

variable {queue : FifoQueue} {items : List Item} {item : Item}

theorem entry_inside {index : Nat} (inside : index < queue.size) :
    queue.entry index = some (queue.data index) := by
  rw [FifoQueue.size] at inside
  exact if_pos (by omega)

theorem advance_inside {user : FifoUser} (inside : user.index < queue.size) :
    queue.advance user = ⟨(user.index + 1) % queue.size, wrap (user.count + 1)⟩ := by
  rw [FifoQueue.advance, ← next_index inside]
  have size : (queue.maxQueueLength : Int) = queue.size := by
    rw [FifoQueue.size] at inside ⊢
    omega
  congr 1
  split <;> split <;> omega

section

variable (tracked : Tracked queue items)

include tracked

theorem Tracked.length_le : items.length ≤ queue.size := by
  have fits := tracked.ring.fits
  rwa [length_map] at fits

theorem Tracked.queueSize_eq : queueSize queue = items.length := by
  have few := tracked.length_le
  have small := tracked.small
  have counted := tracked.counted
  have counts := tracked.counts
  rw [FifoQueue.size] at few
  rw [queueSize, counts, wrapSub, wrap]
  omega

theorem Tracked.producer_inside : queue.producer.index < queue.size := by
  rw [tracked.producer, Ring.tail]
  exact Nat.mod_lt _ (Nat.zero_lt_of_lt tracked.ring.inside)

theorem Tracked.producer_free : (queue.data queue.producer.index).buf = 0 ↔ items.length < queue.size := by
  have free := tracked.ring.tail_free
  rw [← tracked.producer, length_map] at free
  rw [← free, FifoQueue.slot]
  split
  next empty => simp [empty]
  next full => simp [full]

theorem Tracked.produce (valid : item.Valid) (room : items.length < queue.size) :
    Tracked (queue.produce item.entry) (items ++ [item]) := by
  have slots : (queue.produce item.entry).slot =
      update queue.slot queue.producer.index (some item.entry) := by
    funext index
    by_cases here : index = queue.producer.index
    · subst here
      simp [FifoQueue.slot, FifoQueue.produce, Item.entry, valid.buf]
    · simp [FifoQueue.slot, FifoQueue.produce, here]
  have next : (queue.produce item.entry).producer = ⟨(queue.producer.index + 1) % queue.size,
      wrap (queue.producer.count + 1)⟩ :=
    advance_inside tracked.producer_inside
  have pushed := tracked.ring.push (by rwa [length_map]) item.entry
  rw [← tracked.producer] at pushed
  refine ⟨?_, ?_, ?_, ?_, tracked.small, tracked.counted, ?_⟩
  · rw [slots, map_append]
    exact pushed
  · rw [next, map_append, map_singleton, tail_push]
    exact congrArg (fun index => (index + 1) % queue.size) tracked.producer
  · intro index
    by_cases here : index = queue.producer.index
    · subst here
      have nonzero := valid.entry_len.2
      simp only [FifoQueue.produce, update_self]
      exact ⟨fun free => absurd free valid.buf, fun free => absurd free nonzero⟩
    · simpa [FifoQueue.produce, here] using tracked.blank index
  · intro other member
    rcases mem_append.1 member with old | new
    · exact tracked.valid other old
    · rw [mem_singleton.1 new]
      exact valid
  · rw [next, length_append, length_singleton]
    rw [tracked.counts, wrap, wrap, wrap, Nat.mod_add_mod, Nat.add_assoc]
    rfl

theorem Tracked.add (valid : item.Valid) (room : items.length < queue.size) :
    addToQueue queue item.buf item.len item.flags = some (true, queue.produce item.entry) := by
  have free := tracked.producer_free.2 room
  rw [addToQueue, if_neg (by simp [valid.buf, valid.len]), entry_inside tracked.producer_inside]
  exact if_pos ⟨free, (tracked.blank _).1 free⟩

theorem Tracked.refuse (valid : item.Valid) (full : ¬ items.length < queue.size) :
    addToQueue queue item.buf item.len item.flags = some (false, queue) := by
  have taken := mt tracked.producer_free.1 full
  rw [addToQueue, if_neg (by simp [valid.buf, valid.len]), entry_inside tracked.producer_inside]
  exact if_neg fun both => taken both.1

theorem Tracked.offer (low : -2 ^ 31 ≤ item.len) (high : item.len < 2 ^ 31) :
    addToQueue queue item.buf item.len item.flags = some (false, queue) ∨
      item.Valid ∧ addToQueue queue item.buf item.len item.flags = some (true, queue.produce item.entry) ∧
        Tracked (queue.produce item.entry) (items ++ [item]) := by
  by_cases blank : item.buf = 0 ∨ item.len = 0
  · exact .inl (if_pos blank)
  rw [not_or] at blank
  have valid : item.Valid := ⟨blank.1, blank.2, low, high⟩
  by_cases room : items.length < queue.size
  · exact .inr ⟨valid, tracked.add valid room, tracked.produce valid room⟩
  · exact .inl (tracked.refuse valid room)

end

theorem Tracked.first (tracked : Tracked queue (item :: items)) : queue.data queue.consumer.index = item.entry := by
  have head := tracked.ring.start_slot
  rw [map_cons, head?_cons, FifoQueue.slot] at head
  split at head
  next => cases head
  next => exact Option.some.inj head

theorem Tracked.empty (tracked : Tracked queue []) : (queue.data queue.consumer.index).buf = 0 := by
  have head := tracked.ring.start_slot
  rw [map_nil, head?_nil, FifoQueue.slot] at head
  by_contra used
  rw [if_neg used] at head
  cases head

theorem Tracked.consume (tracked : Tracked queue (item :: items)) : Tracked (queue.consume item.entry) items := by
  have inside := tracked.ring.inside
  have slots : (queue.consume item.entry).slot = update queue.slot queue.consumer.index none := by
    funext index
    by_cases here : index = queue.consumer.index
    · subst here
      simp [FifoQueue.slot, FifoQueue.consume]
    · simp [FifoQueue.slot, FifoQueue.consume, here]
  have next : (queue.consume item.entry).consumer = ⟨(queue.consumer.index + 1) % queue.size,
      wrap (queue.consumer.count + 1)⟩ :=
    advance_inside inside
  have popped := tracked.ring.pop
  refine ⟨?_, ?_, ?_, fun other member => tracked.valid other (mem_cons_of_mem _ member), tracked.small, ?_, ?_⟩
  · rw [slots, next]
    exact popped
  · rw [next]
    exact tracked.producer.trans (tail_pop item.entry).symm
  · intro index
    by_cases here : index = queue.consumer.index
    · simp [FifoQueue.consume, here]
    · simpa [FifoQueue.consume, here] using tracked.blank index
  · rw [next]
    exact Nat.mod_lt _ (by decide)
  rw [next]
  have counts := tracked.counts
  rw [length_cons] at counts
  change queue.producer.count = _
  rw [counts, wrap, wrap, wrap, Nat.mod_add_mod, Nat.add_assoc, Nat.add_comm 1]

theorem Tracked.peep (tracked : Tracked queue items) :
    peepFromQueue queue = some (items.head?.map fun item => (item.buf, item.len, item.flags)) := by
  rw [peepFromQueue, entry_inside tracked.ring.inside]
  cases items with
  | nil =>
    have free := tracked.empty
    exact if_neg fun both => both.1 free
  | cons item rest =>
    have valid := tracked.valid item mem_cons_self
    have entry := valid.entry_len
    simp only [tracked.first, some_bind]
    rw [if_pos ⟨valid.buf, entry.2⟩, entry.1]
    rfl

theorem Tracked.remove_empty (tracked : Tracked queue []) : removeFromQueue queue = some (none, queue) := by
  rw [removeFromQueue, entry_inside tracked.ring.inside]
  have free := tracked.empty
  exact if_neg fun both => both.1 free

theorem Tracked.remove (tracked : Tracked queue (item :: items)) :
    removeFromQueue queue = some (some (item.buf, item.len, item.flags), queue.consume item.entry) := by
  have valid := tracked.valid item mem_cons_self
  have entry := valid.entry_len
  rw [removeFromQueue, entry_inside tracked.ring.inside]
  simp only [tracked.first, some_bind]
  rw [if_pos ⟨valid.buf, entry.2⟩, entry.1]
  rfl

theorem Tracked.bulkRemove (tracked : Tracked queue items) (left : Nat) :
    ∃ next, bulkRemoveFromQueue queue left =
        some ((items.take left).map fun item => (item.buf, item.entry.len), next) ∧
      Tracked next (items.drop left) ∧ next.maxQueueLength = queue.maxQueueLength := by
  induction left generalizing queue items with
  | zero => exact ⟨queue, rfl, tracked, rfl⟩
  | succ left ih =>
    rw [bulkRemoveFromQueue, entry_inside tracked.ring.inside]
    cases items with
    | nil =>
      have free := tracked.empty
      exact ⟨queue, if_neg fun used => used free, tracked, rfl⟩
    | cons item rest =>
      obtain ⟨next, ran, after⟩ := ih tracked.consume
      have valid := tracked.valid item mem_cons_self
      refine ⟨next, ?_, after⟩
      simp only [tracked.first, some_bind]
      rw [if_pos (show item.entry.buf ≠ 0 from valid.buf), ran]
      rfl

end

inductive Delivery where
  | single (buf : Nat) (len flags : Int)
  | bulk (buf len : Nat)

def Delivery.Of (item : Item) : Delivery -> Prop
  | .single buf len flags => buf = item.buf ∧ len = item.len ∧ flags = item.flags
  | .bulk buf len => buf = item.buf ∧ (len : Int) = item.len % 2 ^ 32

structure System where
  queue : FifoQueue
  accepted : List Item
  delivered : List Delivery

inductive Event where
  | add (item : Item)
  | peep
  | remove
  | bulkRemove (mbufLen : Int)

def step (system : System) : Event -> Option System
  | .add item => do
      let (ret, queue) ← addToQueue system.queue item.buf item.len item.flags
      some { system with queue := queue, accepted := if ret then system.accepted ++ [item] else system.accepted }
  | .peep => do
      let _ ← peepFromQueue system.queue
      some system
  | .remove => do
      let (found, queue) ← removeFromQueue system.queue
      let out := found.toList.map fun (buf, len, flags) => Delivery.single buf len flags
      some { system with queue := queue, delivered := system.delivered ++ out }
  | .bulkRemove mbufLen => do
      let (mbufs, queue) ← bulkRemoveFromQueue system.queue mbufLen.toNat
      let out := mbufs.map fun (buf, len) => Delivery.bulk buf len
      some { system with queue := queue, delivered := system.delivered ++ out }

def Allowed (_ : System) : Event -> Prop
  | .add item => item.Valid
  | _ => True

def Start (length : Int) (system : System) : Prop := system = ⟨init length, [], []⟩

abbrev Reaches (length : Int) (system : System) : Prop := Reachable (Start length) step Allowed system

structure Orderly (system : System) (items : List Item) : Prop where
  tracked : Tracked system.queue items
  order : ∃ out, system.accepted = out ++ items ∧ List.Forall₂ Delivery.Of out system.delivered

theorem Orderly.step {system : System} {items : List Item} (orderly : Orderly system items) {event : Event}
    (allowed : Allowed system event) :
    ∃ next, step system event = some next ∧ (∃ items, Orderly next items) ∧
      next.queue.maxQueueLength = system.queue.maxQueueLength := by
  obtain ⟨tracked, out, accepted, delivered⟩ := orderly
  cases event with
  | add item =>
    by_cases room : items.length < system.queue.size
    · have moved : Fifo.step system (.add item) = some { system with
          queue := system.queue.produce item.entry, accepted := system.accepted ++ [item] } := by
        simp [Fifo.step, tracked.add allowed room]
      refine ⟨_, moved, ⟨items ++ [item], tracked.produce allowed room, out, ?_, delivered⟩, rfl⟩
      rw [accepted, append_assoc]
    · have moved : Fifo.step system (.add item) = some system := by
        simp [Fifo.step, tracked.refuse allowed room]
      exact ⟨_, moved, ⟨items, tracked, out, accepted, delivered⟩, rfl⟩
  | peep =>
    have moved : Fifo.step system .peep = some system := by simp [Fifo.step, tracked.peep]
    exact ⟨_, moved, ⟨items, tracked, out, accepted, delivered⟩, rfl⟩
  | remove =>
    cases items with
    | nil =>
      have moved : Fifo.step system .remove = some system := by simp [Fifo.step, tracked.remove_empty]
      exact ⟨_, moved, ⟨[], tracked, out, accepted, delivered⟩, rfl⟩
    | cons item rest =>
      have moved : Fifo.step system .remove = some { system with
          queue := system.queue.consume item.entry
          delivered := system.delivered ++ [.single item.buf item.len item.flags] } := by
        simp [Fifo.step, tracked.remove]
      refine ⟨_, moved, ⟨rest, tracked.consume, out ++ [item], ?_, ?_⟩, rfl⟩
      · rw [accepted, append_assoc]
        rfl
      · exact rel_append delivered (.cons ⟨rfl, rfl, rfl⟩ .nil)
  | bulkRemove mbufLen =>
    obtain ⟨queue, removed, after, same⟩ := tracked.bulkRemove mbufLen.toNat
    have moved : Fifo.step system (.bulkRemove mbufLen) = some { system with
        queue := queue
        delivered := system.delivered ++
          (items.take mbufLen.toNat).map fun item => .bulk item.buf item.entry.len } := by
      simp [Fifo.step, removed, comp_def]
    refine ⟨_, moved, ⟨_, after, out ++ items.take mbufLen.toNat, ?_, ?_⟩, same⟩
    · rw [append_assoc, take_append_drop]
      exact accepted
    · refine rel_append delivered (List.forall₂_map_right_iff.2 (List.forall₂_same.2 fun item _ => ⟨rfl, ?_⟩))
      exact Int.toNat_of_nonneg (Int.emod_nonneg _ (by decide))

theorem init_tracked {length : Int} (positive : 0 < length) (small : length < 2 ^ 31) : Tracked (init length) [] := by
  refine ⟨⟨?_, Nat.zero_le _, fun _ _ => rfl⟩, ?_, fun _ => ⟨fun _ => rfl, fun _ => rfl⟩,
    fun _ absent => (not_mem_nil absent).elim, small, Nat.two_pow_pos 64, rfl⟩
  · change 0 < length.toNat
    omega
  · exact (Nat.zero_mod _).symm

def Sound (length : Int) (system : System) : Prop :=
  (∃ items, Orderly system items) ∧ system.queue.maxQueueLength = length

theorem fifo_in_order (length : Int) (positive : 0 < length) (small : length < 2 ^ 31) (system : System)
    (reached : Reaches length system) :
    ∃ items, (∃ out, system.accepted = out ++ items ∧ List.Forall₂ Delivery.Of out system.delivered) ∧
      queueSize system.queue = items.length ∧
      peepFromQueue system.queue = some (items.head?.map fun item => (item.buf, item.len, item.flags)) ∧
      (∀ item : Item, item.Valid -> ∃ ret next, addToQueue system.queue item.buf item.len item.flags = some (ret, next) ∧
        (ret = false ↔ (items.length : Int) = length)) ∧
      ∀ event, Allowed system event -> (step system event).isSome := by
  have holds : Sound length system ∧ ∀ event, Allowed system event -> (step system event).isSome := by
    refine Reachable.progress ?_ ?_ reached
    · rintro system rfl
      exact ⟨⟨[], init_tracked positive small, [], rfl, .nil⟩, rfl⟩
    · rintro system event ⟨⟨items, orderly⟩, same⟩ allowed
      obtain ⟨next, moved, after, kept⟩ := orderly.step allowed
      exact ⟨next, moved, after, kept.trans same⟩
  obtain ⟨⟨⟨items, tracked, order⟩, same⟩, progress⟩ := holds
  refine ⟨items, order, tracked.queueSize_eq, tracked.peep, fun item valid => ?_, progress⟩
  have few := tracked.length_le
  have size : (system.queue.size : Int) = length := by
    rw [FifoQueue.size, same]
    omega
  by_cases room : items.length < system.queue.size
  · exact ⟨true, _, tracked.add valid room, by simp; omega⟩
  · exact ⟨false, _, tracked.refuse valid room, by simp; omega⟩

def threeAdded : List Event := [.add ⟨7, 100, 0⟩, .add ⟨8, 60, 0⟩, .remove, .add ⟨9, 40, 0⟩]

theorem fifo_in_order_three : ∃ system, ∃ items : List Item, Reaches 2 system ∧
    system.accepted.map Item.buf = [7, 8, 9] ∧ system.delivered.length = 1 ∧ items.map Item.buf = [8, 9] ∧
      queueSize system.queue = items.length := by
  have outcome : (threeAdded.foldlM step ⟨init 2, [], []⟩).any (fun system =>
      system.accepted.map Item.buf = [7, 8, 9] ∧ system.delivered.length = 1) = true := by decide
  obtain ⟨system, ran, bufs, one⟩ := holds_of_any outcome
  have valid {buf : Nat} {len : Int} (nonzero : buf ≠ 0) (low : 0 < len) (high : len < 2 ^ 31) :
      (⟨buf, len, 0⟩ : Item).Valid := ⟨nonzero, low.ne', by simp; omega, high⟩
  have may : ∀ event ∈ threeAdded, ∀ system, Allowed system event := by simp [threeAdded, Allowed, valid]
  have reached : Reaches 2 system := Reachable.foldlM (.start rfl) may ran
  obtain ⟨items, ⟨out, accepted, delivered⟩, size, -⟩ := fifo_in_order 2 (by decide) (by decide) system reached
  obtain ⟨first, rfl⟩ := List.length_eq_one_iff.1 (delivered.length_eq.trans one)
  have left := bufs
  rw [accepted, List.singleton_append, List.map_cons, List.cons.injEq] at left
  exact ⟨system, items, reached, bufs, one, left.2, size⟩

theorem no_entries_overrun :
    (init 0).maxQueueLength = 0 ∧ queueSize (init 0) = 0 ∧ addToQueue (init 0) 7 100 0 = none := by
  decide

end JinyKernel.Fifo
