import JinyKernel.Shared.Ring
import JinyKernel.Shared.Run
import JinyKernel.Pipe.Model

namespace JinyKernel.Pipe

open List Option Run Ring Function

-- `finished` are the buffers of the calls that have returned, as far as they were sent.
structure Channel where
  pipe : Entry
  writer : Option Send
  reader : Option Recv
  put : List UInt8
  delivered : List UInt8
  finished : List UInt8

inductive Event where
  | send (buf : List UInt8)
  | sendSection (page : List UInt8)
  | sendBlocked
  | recv (len : Nat) (nonblock : Bool)
  | recvSection
  | recvBlocked
  | close

variable (c : Channel)

def step : Event -> Option Channel
  | .send buf => some { c with writer := some (fsSendToPipe buf) }
  | .sendSection page => do
      let call ← c.writer
      let (pipe, bytes, writer) := sendSection c.pipe call page
      some { c with
        pipe := pipe
        writer := writer
        put := c.put ++ bytes
        finished := if writer.isNone then c.finished ++ call.buf else c.finished }
  | .sendBlocked => do
      let call ← c.writer
      let writer := sendBlocked c.pipe call
      some { c with
        writer := writer
        finished := if writer.isNone then c.finished ++ call.buf.take call.consumedLen else c.finished }
  | .recv len nonblock => some { c with reader := fsRecvFromPipe c.pipe len nonblock }
  | .recvSection => do
      let call ← c.reader
      let (pipe, bytes, reader) := recvSection c.pipe call
      some { c with pipe := pipe, reader := reader, delivered := c.delivered ++ bytes }
  | .recvBlocked => do
      let call ← c.reader
      some { c with reader := recvBlocked c.pipe call }
  | .close => some { c with pipe := fsDestroyPipe c.pipe }

def Start : Prop := c = ⟨fsCreatePipe, none, none, [], [], []⟩

-- What the writer has handed over: the buffers of its calls, the last one up to `consumed_len`.
def Channel.sent : List UInt8 := c.finished ++ c.writer.elim [] fun call => call.buf.take call.consumedLen

def Allowed : Event -> Prop
  | .send buf => c.writer = none ∧ buf ≠ []
  | .sendSection _ => c.writer.map Send.phase = some .restart
  | .sendBlocked => c.writer.map Send.phase = some .blocked
  | .recv _ _ => c.reader = none
  | .recvSection => c.reader.map Recv.phase = some .restart
  | .recvBlocked => c.reader.map Recv.phase = some .blocked
  | .close => 1 < c.pipe.count

def Buf.rest (buf : Buf) : Option (List UInt8) :=
  buf.data.map fun data => (data.drop buf.startOffset).take (buf.size - buf.startOffset)

def Buf.Filled (buf : Buf) : Prop :=
  ∀ data, buf.data = some data -> buf.startOffset < buf.size ∧ buf.size ≤ data.length

structure Carries (chunks : List (List UInt8)) : Prop where
  ring : Holds maxPipeBufs (fun j => (c.pipe.bufs j).rest) c.pipe.inIndex chunks
  outIndex : c.pipe.outIndex = tail maxPipeBufs c.pipe.inIndex chunks
  filled : ∀ j, (c.pipe.bufs j).Filled
  stream : c.put = c.delivered ++ chunks.flatten
  given : c.put = c.sent
  writer : ∀ call, c.writer = some call ->
    0 < call.leftLen ∧ 0 < call.maxSize ∧ call.consumedLen + call.leftLen = call.buf.length
  reader : ∀ call, c.reader = some call -> call.index = c.pipe.inIndex

theorem rest_update (bufs : Nat -> Buf) (i : Nat) (buf : Buf) :
    (fun j => (update bufs i buf j).rest) = update (fun j => (bufs j).rest) i buf.rest := by
  funext j
  by_cases here : j = i
  · rw [here, update_self, update_self]
  · rw [update_of_ne here, update_of_ne here]

theorem filled_update {bufs : Nat -> Buf} (filled : ∀ j, (bufs j).Filled) (i : Nat) {buf : Buf} (new : buf.Filled) :
    ∀ j, (update bufs i buf j).Filled := by
  intro j
  by_cases here : j = i
  · rwa [here, update_self]
  · rw [update_of_ne here]
    exact filled j

theorem rest_eq_none {buf : Buf} : buf.rest = none ↔ buf.data = none := by
  simp [Buf.rest]

theorem fresh_rest (page src : List UInt8) {len : Nat} (enough : len ≤ src.length) :
    (Buf.mk (some (utMemcpy page src len)) len 0).rest = some (src.take len) := by
  have whole := length_take_of_le enough
  rw [Buf.rest, map_some, drop_zero, Nat.sub_zero, utMemcpy, take_left' whole]

theorem fresh_filled (page src : List UInt8) {len : Nat} (positive : 0 < len) (enough : len ≤ src.length) :
    (Buf.mk (.some (utMemcpy page src len)) len 0).Filled := by
  intro data there
  cases there
  rw [utMemcpy, length_append, length_take_of_le enough]
  exact ⟨positive, Nat.le_add_right _ _⟩

theorem blank_filled : (Buf.mk none 0 0).Filled := fun _ there => by cases there

namespace Carries

variable {c : Channel} {chunks : List (List UInt8)}

theorem room (carries : Carries c chunks) :
    (c.pipe.bufs c.pipe.outIndex).data = none ↔ chunks.length < maxPipeBufs := by
  rw [← carries.ring.tail_free, ← carries.outIndex, rest_eq_none]

theorem sendSection (carries : Carries c chunks) {call : Send} (calling : c.writer = some call)
    (page : List UInt8) {pipe : Entry} {bytes : List UInt8} {writer : Option Send}
    (done : sendSection c.pipe call page = (pipe, bytes, writer)) :
    ∃ more, Carries { c with
      pipe := pipe
      writer := writer
      put := c.put ++ bytes
      finished := if writer.isNone then c.finished ++ call.buf else c.finished } more := by
  have given := carries.given
  rw [Channel.sent, calling] at given
  obtain ⟨left, most, total⟩ := carries.writer call calling
  rw [Pipe.sendSection] at done
  split at done
  next free =>
    set maxSize := if call.leftLen < call.maxSize then call.leftLen else call.maxSize with chosen
    set src := call.buf.drop call.consumedLen with source
    have bounds : 0 < maxSize ∧ maxSize ≤ call.leftLen := by
      rw [chosen]
      split_ifs <;> omega
    have enough : maxSize ≤ src.length := by
      rw [source, length_drop]
      omega
    cases done
    refine ⟨chunks ++ [src.take maxSize], ⟨?_, ?_, ?_, ?_, ?_, ?_, carries.reader⟩⟩
    · rw [rest_update, fresh_rest page src enough, carries.outIndex]
      exact carries.ring.push (carries.room.1 free) (src.take maxSize)
    · rw [tail_push, ← carries.outIndex]
    · exact filled_update carries.filled _ (fresh_filled page src bounds.1 enough)
    · rw [flatten_append, flatten_singleton, ← append_assoc, ← carries.stream]
    · have further : call.buf.take (call.consumedLen + maxSize) = call.buf.take call.consumedLen ++ src.take maxSize :=
        take_add
      have all : call.leftLen - maxSize = 0 -> call.buf.take (call.consumedLen + maxSize) = call.buf := fun zero =>
        take_of_length_le (by omega)
      rw [Channel.sent, given, elim_some, append_assoc, ← further]
      by_cases more : call.leftLen - maxSize > 0
      · simp [more]
      · simp [more, all (by omega)]
    intro next still
    by_cases more : call.leftLen - maxSize > 0
    · simp only [if_pos more] at still
      cases still
      exact ⟨more, bounds.1, by dsimp only; omega⟩
    · simp only [if_neg more] at still
      cases still
  next free =>
    cases done
    refine ⟨chunks, ⟨carries.ring, carries.outIndex, carries.filled, ?_, ?_, ?_, carries.reader⟩⟩
    · rw [append_nil]
      exact carries.stream
    · rw [append_nil]
      exact given
    · intro next still
      cases still
      exact ⟨left, most, total⟩

theorem recvSection (carries : Carries c chunks) {call : Recv} (calling : c.reader = some call)
    {pipe : Entry} {bytes : List UInt8} {reader : Option Recv}
    (done : recvSection c.pipe call = (pipe, bytes, reader)) :
    ∃ less, Carries { c with pipe := pipe, reader := reader, delivered := c.delivered ++ bytes } less := by
  have index := carries.reader call calling
  have front := carries.ring.start_slot
  have filled := carries.filled c.pipe.inIndex
  rw [Pipe.recvSection, index] at done
  generalize c.pipe.bufs c.pipe.inIndex = buf at done front filled
  obtain ⟨data, size, startOffset⟩ := buf
  cases data with
  | none =>
    cases done
    refine ⟨chunks, ⟨carries.ring, carries.outIndex, carries.filled, ?_, carries.given, carries.writer, ?_⟩⟩
    · rw [append_nil]
      exact carries.stream
    intro next still
    split_ifs at still
    cases still
    rfl
  | some data =>
    have within : startOffset < size ∧ size ≤ data.length := filled data rfl
    -- the first chunk is what the buffer still holds
    cases chunks with
    | nil => cases front
    | cons chunk rest =>
      have first : (data.drop startOffset).take (size - startOffset) = chunk := some.inj front
      have stream := carries.stream
      dsimp only at done
      set maxSize := if call.len < size - startOffset then call.len else size - startOffset with chosen
      have bounds : maxSize ≤ size - startOffset := by
        rw [chosen]
        split_ifs <;> omega
      split_ifs at done with all
      · cases done
        have whole : maxSize = size - startOffset := by omega
        refine ⟨rest, ⟨?_, ?_, ?_, ?_, carries.given, carries.writer, fun _ ended => by cases ended⟩⟩
        · rw [rest_update]
          exact carries.ring.pop
        · rw [carries.outIndex, tail_pop]
        · exact filled_update carries.filled _ blank_filled
        · rw [whole, first, append_assoc]
          exact stream
      cases done
      refine ⟨chunk.drop maxSize :: rest,
        ⟨?_, carries.outIndex, ?_, ?_, carries.given, carries.writer, fun _ ended => by cases ended⟩⟩
      · rw [rest_update]
        have replaced := carries.ring.replace (chunk.drop maxSize)
        have kept : (Buf.mk (some data) size (startOffset + maxSize)).rest = some (chunk.drop maxSize) := by
          rw [Buf.rest, map_some, ← first, drop_take, drop_drop, Nat.sub_sub]
        rw [kept]
        exact replaced
      · apply filled_update carries.filled
        intro same there
        cases there
        exact ⟨by dsimp only; omega, within.2⟩
      · have taken : (data.drop startOffset).take maxSize = chunk.take maxSize := by
          rw [← first, take_take, Nat.min_eq_left bounds]
        rw [taken, flatten_cons, append_assoc, ← append_assoc (chunk.take maxSize),
          take_append_drop]
        exact stream

end Carries

theorem start_carries {c : Channel} (start : Start c) : Carries c [] := by
  cases start
  refine ⟨⟨by decide, Nat.zero_le _, fun k _ => ?_⟩, rfl, fun j => ?_, rfl, rfl, ?_, ?_⟩
  · rw [getElem?_nil]
    rfl
  · exact blank_filled
  · exact fun _ idle => by cases idle
  · exact fun _ idle => by cases idle

theorem step_carries (c : Channel) (event : Event) (next : Channel) (before : ∃ chunks, Carries c chunks)
    (may : Allowed c event) (moved : step c event = some next) : ∃ chunks, Carries next chunks := by
  obtain ⟨chunks, carries⟩ := before
  cases event with
  | send buf =>
    cases moved
    have given := carries.given
    rw [Channel.sent, may.1] at given
    refine ⟨chunks, { carries with given := given, writer := fun call started => ?_ }⟩
    cases started
    exact ⟨length_pos_iff.2 may.2, (by decide : 0 < pageSize), Nat.zero_add _⟩
  | sendSection page =>
    obtain ⟨call, calling, done⟩ := bind_iff.1 moved
    cases done
    exact carries.sendSection calling page rfl
  | sendBlocked =>
    obtain ⟨call, calling, done⟩ := bind_iff.1 moved
    cases done
    have given := carries.given
    rw [Channel.sent, calling] at given
    refine ⟨chunks, { carries with given := ?_, writer := fun next still => ?_ }⟩
    · by_cases shared : c.pipe.count > 1 <;> simp [given, Channel.sent, sendBlocked, shared]
    simp only [sendBlocked] at still
    split_ifs at still
    cases still
    exact carries.writer call calling
  | recv len nonblock =>
    cases moved
    refine ⟨chunks, { carries with reader := fun call started => ?_ }⟩
    simp only [fsRecvFromPipe] at started
    split_ifs at started
    cases started
    rfl
  | recvSection =>
    obtain ⟨call, calling, done⟩ := bind_iff.1 moved
    cases done
    exact carries.recvSection calling rfl
  | recvBlocked =>
    obtain ⟨call, calling, done⟩ := bind_iff.1 moved
    cases done
    refine ⟨chunks, { carries with reader := fun next still => ?_ }⟩
    simp only [recvBlocked] at still
    split_ifs at still
    cases still
    exact carries.reader call calling
  | close =>
    have more : 1 < c.pipe.count := may
    have survives : fsDestroyPipe c.pipe = { c.pipe with count := c.pipe.count - 1 } := by
      rw [fsDestroyPipe, if_neg]
      omega
    simp only [step, survives, some.injEq] at moved
    subst moved
    exact ⟨chunks, { carries with }⟩

theorem pipe_byte_stream {c : Channel} (reached : Reachable Start step Allowed c) :
    c.put = c.sent ∧ c.delivered <+: c.put ∧
      ((∀ j < maxPipeBufs, (c.pipe.bufs j).data = none) -> c.delivered = c.put) := by
  obtain ⟨chunks, carries⟩ := reached.invariant (fun _ start => ⟨_, start_carries start⟩) step_carries
  refine ⟨carries.given, ?_⟩
  rw [carries.stream]
  refine ⟨prefix_append _ _, fun empty => ?_⟩
  have front := carries.ring.start_slot
  rw [rest_eq_none.2 (empty _ carries.ring.inside), eq_comm, head?_eq_none_iff] at front
  rw [front, flatten_nil, append_nil]

def created : Channel := ⟨fsCreatePipe, none, none, [], [], []⟩
def sending : Channel := (step created (.send [1, 2, 3])).getD created
def sent : Channel := (step sending (.sendSection [])).getD created
def receiving : Channel := (step sent (.recv 2 false)).getD created
def received : Channel := (step receiving .recvSection).getD created

theorem pipe_byte_stream_received : received.delivered = [1, 2] ∧ received.sent = [1, 2, 3] ∧
    received.put = received.sent ∧ received.delivered <+: received.put := by
  have maySend : Allowed created (.send [1, 2, 3]) := ⟨rfl, by decide⟩
  have atSend : Reachable Start step Allowed sending := .next (.start rfl) maySend rfl
  have maySection : Allowed sending (.sendSection []) := rfl
  have atSent : Reachable Start step Allowed sent := .next atSend maySection rfl
  have mayRecv : Allowed sent (.recv 2 false) := rfl
  have atRecv : Reachable Start step Allowed receiving := .next atSent mayRecv rfl
  have mayTake : Allowed receiving .recvSection := rfl
  have stream := pipe_byte_stream (.next atRecv mayTake rfl)
  exact ⟨by decide, by decide, stream.1, stream.2.1⟩

end JinyKernel.Pipe
