import JinyKernel.Shared.Run
import JinyKernel.Tcp.Socket

namespace JinyKernel.Tcp.Receive

open List Run Ring
open Fifo (ContentQueue)
open Fifo.ContentQueue (Holding addToQueue_refused)

structure Receiver where
  sock : Socket
  reader : Option ReadCall
  received : Nat
  delivered : List UInt8

inductive Event where
  | arrive (pkt : Packet) (tcpHeaderLen : Nat) (position : Nat)
  | read (appLen : Nat) (nonblock : Bool)
  | round

def step (s : Receiver) : Event -> Option Receiver
  | .arrive pkt tcpHeaderLen _ => do
    let sock ← defaultPktProcess s.sock pkt tcpHeaderLen
    some { s with sock := sock, received := if Takes s.sock.conn pkt pkt.data.length then s.received + pkt.data.length
      else s.received }
  | .read appLen nonblock => some { s with reader := socketRead s.sock appLen nonblock }
  | .round => do
    let call ← s.reader
    let (sock, bytes, reader) ← readRound s.sock call
    some { s with sock := sock, reader := reader, delivered := s.delivered ++ bytes }

def held (queue : ContentQueue TcpData) : List UInt8 :=
  (contents queue.maxQueueLength queue.data queue.consumer).flatMap TcpData.rest

variable (stream : List UInt8)

-- A segment is a part of the peer's stream; the application reads one call at a time.
def Allowed (isn : Nat) (s : Receiver) : Event -> Prop
  | .arrive pkt _ position => pkt.data = (stream.drop position).take pkt.data.length ∧
      pkt.seqno = uint32 (isn + 1 + position)
  | .read _ _ => s.reader = none
  | .round => s.reader ≠ none

-- A segment that is taken finds room in the queue and is the next of the stream, not one of another round of
-- the numbers.
def Fits (s : Receiver) : Event -> Prop
  | .arrive pkt _ _ => Takes s.sock.conn pkt pkt.data.length ->
      s.sock.inputQueue.data s.sock.inputQueue.producer = none ∧
        pkt.data = (stream.drop s.received).take pkt.data.length
  | _ => True

structure Accounted (isn : Nat) (s : Receiver) : Prop where
  number : s.sock.conn.recvSeqNo = uint32 (isn + 1 + s.received)
  within : s.received ≤ stream.length
  bytes : s.delivered ++ held s.sock.inputQueue = stream.take s.received

def Start (isn qlen : Nat) (s : Receiver) : Prop :=
  ∃ bufs, s = ⟨⟨tcpConnNew isn bufs, { maxQueueLength := qlen }⟩, none, 0, []⟩

def Sized (buf : TcpData) : Prop := buf.consumed ≤ buf.data.length ∧ buf.data.length + buf.offset ≤ memNetbufSize

def Stored (queue : ContentQueue TcpData) : Prop := ∃ items, Holding queue items ∧ ∀ buf ∈ items, Sized buf

theorem held_eq {queue : ContentQueue TcpData} {items : List TcpData} (holding : Holding queue items) :
    held queue = items.flatMap TcpData.rest := by
  rw [held, holding.ring.contents]

theorem readRound_spec {sock : Socket} (stored : Stored sock.inputQueue) (call : ReadCall) :
    ∃ queue bytes reader, readRound sock call = some ({ sock with inputQueue := queue }, bytes, reader) ∧
      Stored queue ∧ bytes ++ held queue = held sock.inputQueue := by
  obtain ⟨items, holding, sized⟩ := stored
  cases items with
  | nil =>
    refine ⟨sock.inputQueue, [], if call.nonblock then none else some call, ?_, ⟨[], holding, sized⟩, rfl⟩
    simp [readRound, holding.peep]
  | cons buf rest =>
    rw [forall_mem_cons] at sized
    obtain ⟨⟨read, size⟩, others⟩ := sized
    have safe : ¬ buf.offset + buf.consumed > memNetbufSize := by omega
    simp only [readRound, holding.peep, head?_cons, if_neg safe]
    set retLen := if buf.data.length - buf.consumed ≥ call.appLen then call.appLen else buf.data.length - buf.consumed
      with chosen
    have most : retLen ≤ buf.data.length - buf.consumed := by
      rw [chosen]
      split_ifs <;> omega
    have fits : buf.consumed + retLen ≤ buf.data.length := by omega
    have replaced := holding.replace { buf with consumed := buf.consumed + retLen }
    split_ifs with whole
    · refine ⟨_, _, _, rfl, ⟨rest, replaced.remove, others⟩, ?_⟩
      rw [held_eq replaced.remove, held_eq holding, flatMap_cons, take_of_length_le]
      rw [TcpData.rest, length_drop]
      omega
    refine ⟨_, _, _, rfl, ⟨_, replaced, forall_mem_cons.2 ⟨⟨fits, size⟩, others⟩⟩, ?_⟩
    have later : TcpData.rest { buf with consumed := buf.consumed + retLen } = buf.rest.drop retLen := by
      rw [TcpData.rest, TcpData.rest, drop_drop]
    rw [held_eq replaced, held_eq holding, flatMap_cons, flatMap_cons, later, ← append_assoc, take_append_drop]

structure Inv (isn : Nat) (s : Receiver) : Prop where
  accounted : Accounted stream isn s
  stored : Stored s.sock.inputQueue

section

variable {stream : List UInt8} {isn qlen : Nat} {s : Receiver}

theorem Start.inv (positive : 0 < qlen) (start : Start isn qlen s) : Inv stream isn s := by
  obtain ⟨bufs, rfl⟩ := start
  have holding : Holding { maxQueueLength := qlen } ([] : List TcpData) :=
    ⟨⟨positive, Nat.zero_le _, fun _ _ => rfl⟩, rfl⟩
  refine ⟨⟨rfl, Nat.zero_le _, ?_⟩, [], holding, by simp⟩
  rw [held_eq holding]
  rfl

theorem taken_iff (inv : Inv stream isn s) {data : List UInt8} {offset : Nat} (positive : 0 < data.length)
    (size : data.length + offset ≤ memNetbufSize) (conn : Connection)
    (number : conn.recvSeqNo = uint32 (s.sock.conn.recvSeqNo + data.length)) :
    (Accounted stream isn { s with
        sock := ⟨conn, s.sock.inputQueue.addToQueue ⟨data, offset, 0⟩ data.length⟩
        received := s.received + data.length } ↔
      s.sock.inputQueue.data s.sock.inputQueue.producer = none ∧ data = (stream.drop s.received).take data.length) ∧
    Stored (s.sock.inputQueue.addToQueue ⟨data, offset, 0⟩ data.length) := by
  obtain ⟨⟨counted, within, bytes⟩, items, holding, sized⟩ := inv
  by_cases room : s.sock.inputQueue.Room
  · have added : Holding (s.sock.inputQueue.addToQueue ⟨data, offset, 0⟩ data.length) _ :=
      holding.add room positive.ne'
    have grown : held (s.sock.inputQueue.addToQueue ⟨data, offset, 0⟩ data.length) = held s.sock.inputQueue ++ data := by
      rw [held_eq added, held_eq holding, flatMap_append, flatMap_singleton]
      rfl
    have fits : Sized ⟨data, offset, 0⟩ := ⟨Nat.zero_le _, size⟩
    have cut := take_add (l := stream) (i := s.received) (j := data.length)
    refine ⟨⟨fun after => ⟨room, ?_⟩, fun ⟨_, next⟩ => ⟨?_, ?_, ?_⟩⟩, _, added,
      by simpa [or_imp, forall_and, fits] using sized⟩
    · have whole := after.bytes
      rw [grown, ← append_assoc, bytes, cut] at whole
      exact append_cancel_left whole
    · dsimp only
      rw [number, counted, uint32, uint32, uint32, Nat.mod_add_mod, Nat.add_assoc]
    · have length := congrArg List.length next
      rw [length_take, length_drop] at length
      dsimp only
      omega
    · dsimp only
      rw [grown, ← append_assoc, bytes, cut, ← next]
  · -- the buffer is freed, the number has moved on
    rw [addToQueue_refused fun accepted => room accepted.2]
    refine ⟨⟨fun ⟨_, most, whole⟩ => ?_, fun ⟨free, _⟩ => absurd free room⟩, items, holding, sized⟩
    dsimp only at most whole
    have length := congrArg List.length (bytes.symm.trans whole)
    rw [length_take, length_take] at length
    omega

theorem step_inv (inv : Inv stream isn s) {event : Event} {next : Receiver} (moved : step s event = some next) :
    (Accounted stream isn next ↔ Fits stream s event) ∧ Stored next.sock.inputQueue := by
  obtain ⟨accounted, stored⟩ := inv
  cases event with
  | arrive pkt tcpHeaderLen position =>
    obtain ⟨sock, processed, moved⟩ := bind_iff.1 moved
    obtain ⟨⟨ret, conn, out⟩, read, passed⟩ := bind_iff.1 processed
    by_cases takes : Takes s.sock.conn pkt pkt.data.length
    · have positive := takes.2.2.1
      rw [tcpRead_takes tcpHeaderLen takes] at read
      split_ifs at read with large
      cases read
      simp only [gt_iff_lt, positive, if_true, Int.toNat_natCast] at passed
      cases passed
      simp only [if_pos takes] at moved
      cases moved
      have result := taken_iff ⟨accounted, stored⟩ (by exact_mod_cast positive) (by exact_mod_cast not_lt.1 large)
        { takeAck s.sock.conn pkt with recvSeqNo := uint32 (pkt.seqno + pkt.data.length) } (by rw [takes.2.2.2])
      refine ⟨result.1.trans ⟨fun fits _ => fits, fun fits => fits takes⟩, result.2⟩
    · obtain ⟨_, _, _, dropped, nothing, number, -⟩ := tcpRead_drops tcpHeaderLen takes
      cases dropped.symm.trans read
      simp only [gt_iff_lt, if_neg (Int.not_lt.2 nothing)] at passed
      cases passed
      simp only [if_neg takes] at moved
      cases moved
      exact ⟨⟨fun _ taken => absurd taken takes, fun _ => ⟨number.trans accounted.number, accounted.within,
        accounted.bytes⟩⟩, stored⟩
  | read appLen nonblock =>
    cases moved
    exact ⟨⟨fun _ => trivial, fun _ => { accounted with }⟩, stored⟩
  | round =>
    obtain ⟨call, _, moved⟩ := bind_iff.1 moved
    obtain ⟨queue, bytes, reader, ran, after, same⟩ := readRound_spec stored call
    rw [ran] at moved
    cases moved
    refine ⟨⟨fun _ => trivial, fun _ => ⟨accounted.number, accounted.within, ?_⟩⟩, after⟩
    rw [append_assoc, same]
    exact accounted.bytes

theorem receive_stream_iff (positive : 0 < qlen)
    (reached : Reachable (Start isn qlen) step
      (fun s event => Allowed stream isn s event ∧ Fits stream s event) s) :
    s.delivered <+: stream ∧ Accounted stream isn s ∧
      ∀ event next, step s event = some next -> (Accounted stream isn next ↔ Fits stream s event) := by
  have inv : Inv stream isn s := reached.invariant (fun _ start => start.inv positive)
    fun s event next inv may moved => by
    obtain ⟨account, stored⟩ := step_inv inv moved
    exact ⟨account.2 may.2, stored⟩
  refine ⟨?_, inv.accounted, fun event next moved => (step_inv inv moved).1⟩
  have front : s.delivered <+: stream.take s.received := ⟨_, inv.accounted.bytes⟩
  exact front.trans ( take_prefix _ _)

end

def connected : Receiver := ⟨⟨tcpConnNew 0 fun _ => ⟨{}, 0, 0, []⟩, { maxQueueLength := 256 }⟩, none, 0, []⟩

def arrived : Receiver := (step connected (.arrive ⟨{}, 1, 0, [1, 2]⟩ 20 0)).getD connected
def asked : Receiver := (step arrived (.read 1 false)).getD connected
def readOnce : Receiver := (step asked .round).getD connected

theorem receive_stream_iff_readOnce : readOnce.delivered = [1] ∧ held readOnce.sock.inputQueue = [2] ∧
    readOnce.delivered <+: [1, 2, 3] ∧ Accounted [1, 2, 3] 0 readOnce := by
  have started : Start 0 256 connected := ⟨_, rfl⟩
  have taken : Allowed [1, 2, 3] 0 connected (.arrive ⟨{}, 1, 0, [1, 2]⟩ 20 0) ∧
      Fits [1, 2, 3] connected (.arrive ⟨{}, 1, 0, [1, 2]⟩ 20 0) := ⟨⟨rfl, rfl⟩, fun _ => ⟨rfl, rfl⟩⟩
  have reading : Allowed [1, 2, 3] 0 arrived (.read 1 false) ∧ Fits [1, 2, 3] arrived (.read 1 false) := ⟨rfl, trivial⟩
  have going : Allowed [1, 2, 3] 0 asked .round ∧ Fits [1, 2, 3] asked .round :=
    ⟨Option.ne_none_iff_exists'.2 ⟨⟨1, false⟩, rfl⟩, trivial⟩
  have reached : Reachable (Start 0 256) step
      (fun s event => Allowed [1, 2, 3] 0 s event ∧ Fits [1, 2, 3] s event) readOnce :=
    .next (.next (.next (.start started) taken rfl) reading rfl) going rfl
  have result := receive_stream_iff (by decide) reached
  exact ⟨rfl, by decide +kernel, result.1, result.2.1⟩

def burst : List Event := (List.range 257).map fun k => .arrive ⟨{}, uint32 (0 + 1 + k), 0, [7]⟩ 20 k

theorem full_queue_drops : (burst.foldlM step connected).map (fun s =>
      (s.received, s.sock.conn.recvSeqNo, s.delivered, (held s.sock.inputQueue).length)) = some (257, 258, [], 256) := by
  decide +kernel

end JinyKernel.Tcp.Receive
