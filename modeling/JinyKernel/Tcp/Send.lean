import JinyKernel.Shared.Run
import JinyKernel.Tcp.Model

namespace JinyKernel.Tcp.Send

open Function

structure Same (slot old : SendSlot) : Prop where
  len : slot.len = old.len
  seqNo : slot.seqNo = old.seqNo
  buf : slot.buf = old.buf

structure Swept (conn next : Connection) : Prop where
  ack : next.sendAckNo = conn.sendAckNo
  seq : next.sendSeqNo = conn.sendSeqNo
  slots : ∀ i, Same (next.sendQueue i) (conn.sendQueue i) ∨
    (next.sendQueue i).len = 0 ∧ (conn.sendQueue i).len ≠ 0 ∧ conn.sendAckNo > (conn.sendQueue i).seqNo

section

variable {conn mid next : Connection}

theorem Swept.refl (conn : Connection) : Swept conn conn := ⟨rfl, rfl, fun _ => .inl ⟨rfl, rfl, rfl⟩⟩

theorem Swept.trans (first : Swept conn mid) (second : Swept mid next) : Swept conn next where
  ack := second.ack.trans first.ack
  seq := second.seq.trans first.seq
  slots i := by
    rcases first.slots i with same | ⟨gone, used, passed⟩
    · rcases second.slots i with again | ⟨gone, used, passed⟩
      · exact .inl ⟨again.len.trans same.len, again.seqNo.trans same.seqNo, again.buf.trans same.buf⟩
      · rw [same.len] at used
        rw [same.seqNo, first.ack] at passed
        exact .inr ⟨gone, used, passed⟩
    · rcases second.slots i with again | ⟨_, still, _⟩
      · exact .inr ⟨again.len.trans gone, used, passed⟩
      · exact absurd gone still

theorem Swept.setSlot {i : Nat} {slot : SendSlot}
    (change : Same slot (conn.sendQueue i) ∨
      slot.len = 0 ∧ (conn.sendQueue i).len ≠ 0 ∧ conn.sendAckNo > (conn.sendQueue i).seqNo) :
    Swept conn (setSlot conn i slot) := by
  refine ⟨rfl, rfl, fun j => ?_⟩
  by_cases here : j = i
  · subst here
    simpa only [Tcp.setSlot, update_self] using change
  · left
    simp only [Tcp.setSlot, update_of_ne here]
    exact ⟨rfl, rfl, rfl⟩

theorem housekeepLoop_swept (conn : Connection) (jiffies : Nat) (sent : Nat -> Bool) (n i : Nat) :
    Swept conn (housekeepLoop jiffies sent conn n i).1 := by
  induction n generalizing conn i with
  | zero => exact .refl conn
  | succ n ih =>
    rw [housekeepLoop]
    by_cases free : (conn.sendQueue i).len = 0
    · simpa only [if_pos free] using ih conn (i + 1)
    by_cases passed : conn.sendAckNo > (conn.sendQueue i).seqNo
    · simp only [if_neg free, if_pos passed]
      have slots : Swept conn (setSlot conn i { conn.sendQueue i with len := 0 }) := .setSlot (.inr ⟨rfl, free, passed⟩)
      have released : Swept conn { setSlot conn i { conn.sendQueue i with len := 0 } with
          squeueSize := conn.squeueSize - 1 } := { slots with }
      exact released.trans (ih _ (i + 1))
    by_cases fresh : jiffies = (conn.sendQueue i).lastsendTs
    · simpa only [if_neg free, if_neg passed, if_pos fresh] using ih conn (i + 1)
    cases went : sent i with
    | false => simpa [free, passed, fresh, went] using ih conn (i + 1)
    | true =>
      simp only [if_neg free, if_neg passed, if_neg fresh, if_true]
      have stamped : Swept conn (setSlot conn i { conn.sendQueue i with lastsendTs := jiffies }) :=
        .setSlot (.inl ⟨rfl, rfl, rfl⟩)
      exact stamped.trans (ih _ (i + 1))

theorem housekeeper_swept (conn : Connection) (jiffies : Nat) (sent : Nat -> Bool) :
    Swept conn (housekeeper conn jiffies sent).1 := by
  rw [housekeeper]
  split_ifs
  · exact .refl conn
  · have swept := housekeepLoop_swept conn jiffies sent maxTcpsndWindow 0
    exact { swept with }

def filled (conn : Connection) (i : Nat) (data : List UInt8) (jiffies : Nat) : Connection :=
  { setSlot conn i ⟨(generateTcpPkt conn { ack := true } data conn.sendSeqNo).1,
      (generateTcpPkt conn { ack := true } data conn.sendSeqNo).2, conn.sendSeqNo, jiffies⟩ with
    squeueSize := conn.squeueSize + 1
    sendSeqNo := uint32 (conn.sendSeqNo + data.length) }

theorem writeLoop_spec (conn : Connection) (data : List UInt8) (jiffies n i : Nat) :
    ∃ mid, Swept conn mid ∧ (writeLoop data jiffies conn n i = (mid, none) ∨
      ∃ k < i + n, (mid.sendQueue k).len = 0 ∧ writeLoop data jiffies conn n i =
        (filled mid k data jiffies, some k)) := by
  induction n generalizing conn i with
  | zero => exact ⟨conn, .refl conn, .inl rfl⟩
  | succ n ih =>
    rw [writeLoop]
    by_cases passed : (conn.sendQueue i).len ≠ 0 ∧ conn.sendAckNo > (conn.sendQueue i).seqNo
    · simp only [if_pos passed]
      obtain ⟨mid, swept, result⟩ := ih (setSlot conn i { conn.sendQueue i with len := 0 }) (i + 1)
      refine ⟨mid, Swept.trans (.setSlot (.inr ⟨rfl, passed⟩)) swept, ?_⟩
      rwa [Nat.add_right_comm, Nat.add_assoc] at result
    by_cases free : (conn.sendQueue i).len = 0
    · simp only [if_neg passed, if_pos free]
      exact ⟨conn, .refl conn, .inr ⟨i, by omega, free, rfl⟩⟩
    simp only [if_neg passed, if_neg free]
    obtain ⟨mid, swept, result⟩ := ih conn (i + 1)
    rw [Nat.add_right_comm, Nat.add_assoc] at result
    exact ⟨mid, swept, result⟩

theorem tcpRead_send {pkt : Packet} {tcpHeaderLen : Nat} {len ret : Int} {out : List Packet}
    (read : tcpRead conn pkt len tcpHeaderLen = some (ret, next, out)) :
    next.sendQueue = conn.sendQueue ∧ next.sendSeqNo = conn.sendSeqNo ∧
      next.sendAckNo = if pkt.flags.ack then pkt.ackno else conn.sendAckNo := by
  have taken : (takeAck conn pkt).sendQueue = conn.sendQueue ∧ (takeAck conn pkt).sendSeqNo = conn.sendSeqNo ∧
      (takeAck conn pkt).sendAckNo = if pkt.flags.ack then pkt.ackno else conn.sendAckNo := by
    rw [takeAck]
    split_ifs <;> exact ⟨rfl, rfl, rfl⟩
  simp only [tcpRead] at read
  -- the rest of the call changes the state and the receive number only
  generalize takeAck conn pkt = after at read taken
  split_ifs at read <;> cases read <;> exact taken

end

structure Segment where
  position : Nat
  data : List UInt8
  deriving DecidableEq

def Segment.ends (segment : Segment) : Nat := segment.position + segment.data.length

-- The end of the stream, the positions of the last and the highest ACK, all that was written, and the last
-- segment of each entry.
structure Sender where
  conn : Connection
  sent : Nat
  acked : Nat
  highest : Nat
  written : List Segment
  holds : Nat -> Segment

inductive Event where
  | write (appData : List UInt8) (jiffies : Nat)
  | housekeeper (jiffies : Nat) (sent : Nat -> Bool)
  | arrive (pkt : Packet) (tcpHeaderLen : Nat) (position : Nat)

variable (s : Sender)

def step : Event -> Option Sender
  | .write appData jiffies =>
    match tcpWrite s.conn appData jiffies with
    | (conn, none) => some { s with conn := conn }
    | (conn, some i) =>
      let segment : Segment := ⟨s.sent, writable appData⟩
      some { s with
        conn := conn
        sent := segment.ends
        written := segment :: s.written
        holds := update s.holds i segment }
  | .housekeeper jiffies sent => some { s with conn := (housekeeper s.conn jiffies sent).1 }
  | .arrive pkt tcpHeaderLen position => do
    let (_, conn, _) ← tcpRead s.conn pkt pkt.data.length tcpHeaderLen
    if pkt.flags.ack then some { s with conn := conn, acked := position, highest := max s.highest position }
    else some { s with conn := conn }

def Allowed : Event -> Prop
  | .arrive pkt _ position => pkt.flags.ack -> position ≤ s.sent ∧ pkt.ackno = uint32 position
  | _ => True

-- ACKs come in order and between segments; no unacknowledged entry is numbered past a wrap.
def Orderly : Event -> Prop
  | .arrive pkt _ position => pkt.flags.ack -> s.acked ≤ position ∧
      ∀ i < maxTcpsndWindow, (s.conn.sendQueue i).len ≠ 0 -> position ≤ (s.holds i).position ∨ (s.holds i).ends ≤ position
  | _ => ∀ i < maxTcpsndWindow, (s.conn.sendQueue i).len ≠ 0 -> s.acked ≤ (s.holds i).position ->
      uint32 s.acked ≤ uint32 (s.holds i).position

def Start : Prop :=
  ∃ seqno bufs holds, s = ⟨tcpConnNew seqno bufs, netHtonl 0x200, 0, 0, [], holds⟩

structure Carries (slot : SendSlot) (segment : Segment) : Prop where
  used : slot.len ≠ 0
  number : slot.seqNo = uint32 segment.position
  seqno : slot.buf.seqno = uint32 segment.position
  data : slot.buf.data = segment.data

structure Inv : Prop where
  number : s.conn.sendSeqNo = uint32 s.sent
  ack : s.conn.sendAckNo = uint32 s.acked
  top : s.highest = s.acked
  within : s.acked ≤ s.sent
  slots : ∀ i < maxTcpsndWindow, (s.conn.sendQueue i).len ≠ 0 -> Carries (s.conn.sendQueue i) (s.holds i) ∧
    (s.holds i).ends ≤ s.sent ∧ (s.acked ≤ (s.holds i).position ∨ (s.holds i).ends ≤ s.acked)
  available : ∀ segment ∈ s.written, s.highest < segment.ends ->
    ∃ i < maxTcpsndWindow, (s.conn.sendQueue i).len ≠ 0 ∧ s.holds i = segment

def Retains (s next : Sender) : Prop :=
  ∀ i < maxTcpsndWindow, (s.conn.sendQueue i).len ≠ 0 ->
    Same (next.conn.sendQueue i) (s.conn.sendQueue i) ∧ next.holds i = s.holds i ∨ (s.holds i).ends ≤ s.highest

section

variable {s : Sender}

theorem Start.inv (start : Start s) : Inv s := by
  obtain ⟨seqno, bufs, holds, rfl⟩ := start
  exact ⟨rfl, rfl, rfl, Nat.zero_le _, fun i _ used => absurd rfl used, fun _ absent => by cases absent⟩

theorem Same.carries {slot old : SendSlot} (same : Same slot old) {segment : Segment} (carries : Carries old segment) :
    Carries slot segment :=
  ⟨same.len ▸ carries.used, same.seqNo.trans carries.number, same.buf ▸ carries.seqno, same.buf ▸ carries.data⟩

theorem Inv.swept (inv : Inv s) {next : Connection} (swept : Swept s.conn next)
    (unwrapped : ∀ i < maxTcpsndWindow, (s.conn.sendQueue i).len ≠ 0 -> s.acked ≤ (s.holds i).position ->
      uint32 s.acked ≤ uint32 (s.holds i).position) :
    Inv { s with conn := next } ∧ Retains s { s with conn := next } := by
  have kept : Retains s { s with conn := next } := by
    intro i within used
    rcases swept.slots i with same | ⟨_, _, passed⟩
    · exact .inl ⟨same, rfl⟩
    right
    obtain ⟨carries, _, place⟩ := inv.slots i within used
    rw [inv.ack, carries.number] at passed
    have behind : ¬ s.acked ≤ (s.holds i).position := fun ahead =>
      absurd (unwrapped i within used ahead) (not_le.2 passed)
    rw [inv.top]
    exact place.resolve_left behind
  have before : ∀ i, (next.sendQueue i).len ≠ 0 ->
      (s.conn.sendQueue i).len ≠ 0 ∧ Same (next.sendQueue i) (s.conn.sendQueue i) := by
    intro i used
    rcases swept.slots i with same | ⟨gone, _⟩
    · exact ⟨same.len ▸ used, same⟩
    · exact absurd gone used
  refine ⟨⟨swept.seq.trans inv.number, swept.ack.trans inv.ack, inv.top, inv.within, fun i within used => ?_,
    fun segment among ahead => ?_⟩, kept⟩
  · obtain ⟨old, same⟩ := before i used
    obtain ⟨carries, rest⟩ := inv.slots i within old
    exact ⟨same.carries carries, rest⟩
  obtain ⟨i, within, used, held⟩ := inv.available segment among ahead
  rcases kept i within used with ⟨same, _⟩ | done
  · exact ⟨i, within, same.len ▸ used, held⟩
  · rw [held] at done
    exact absurd ahead (not_lt.2 done)

theorem generated_seqno (conn : Connection) (data : List UInt8) (seqNo : Nat) :
    (generateTcpPkt conn { ack := true } data seqNo).1.seqno = seqNo := by
  simp [generateTcpPkt]

theorem Inv.filled (inv : Inv s) {i : Nat} (free : (s.conn.sendQueue i).len = 0) (within : i < maxTcpsndWindow)
    (data : List UInt8) (jiffies : Nat) :
    Inv { s with
      conn := filled s.conn i data jiffies
      sent := (⟨s.sent, data⟩ : Segment).ends
      written := ⟨s.sent, data⟩ :: s.written
      holds := update s.holds i ⟨s.sent, data⟩ } := by
  have below := inv.within
  have grown : s.sent ≤ (⟨s.sent, data⟩ : Segment).ends := Nat.le_add_right ..
  have others : ∀ j, j ≠ i -> (Send.filled s.conn i data jiffies).sendQueue j = s.conn.sendQueue j ∧
      update s.holds i ⟨s.sent, data⟩ j = s.holds j := fun j apart =>
    ⟨update_of_ne apart .., update_of_ne apart ..⟩
  have new : (Send.filled s.conn i data jiffies).sendQueue i = _ := update_self ..
  have carries : Carries ((Send.filled s.conn i data jiffies).sendQueue i) ⟨s.sent, data⟩ := by
    rw [new]
    exact ⟨by simp [generateTcpPkt], inv.number, (generated_seqno ..).trans inv.number, rfl⟩
  refine ⟨?_, inv.ack, inv.top, below.trans grown, fun j inside used => ?_, fun segment among ahead => ?_⟩
  · simp [Send.filled, inv.number, uint32, Segment.ends]
  · by_cases here : j = i
    · subst here
      have held : update s.holds j ⟨s.sent, data⟩ j = (⟨s.sent, data⟩ : Segment) := update_self ..
      dsimp only
      rw [held]
      exact ⟨carries, le_refl _, .inl below⟩
    obtain ⟨slot, held⟩ := others j here
    dsimp only at used ⊢
    rw [slot] at used ⊢
    rw [held]
    obtain ⟨old, ends, place⟩ := inv.slots j inside used
    exact ⟨old, ends.trans grown, place⟩
  · dsimp only at among ahead ⊢
    rcases List.mem_cons.1 among with rfl | old
    · exact ⟨i, within, carries.used, update_self ..⟩
    obtain ⟨j, inside, used, held⟩ := inv.available segment old ahead
    have apart : j ≠ i := fun same => used (same ▸ free)
    obtain ⟨slot, same⟩ := others j apart
    exact ⟨j, inside, by rwa [slot], same.trans held⟩

section

variable {next : Connection} (inv : Inv s) (queue : next.sendQueue = s.conn.sendQueue)
  (number : next.sendSeqNo = s.conn.sendSeqNo)

include inv queue number

theorem Inv.acknowledged {position : Nat} (ack : next.sendAckNo = uint32 position) (sent : position ≤ s.sent)
    (ahead : s.acked ≤ position) (between : ∀ i < maxTcpsndWindow, (s.conn.sendQueue i).len ≠ 0 ->
      position ≤ (s.holds i).position ∨ (s.holds i).ends ≤ position) :
    Inv { s with conn := next, acked := position, highest := max s.highest position } := by
  have top := max_eq_right (inv.top ▸ ahead)
  refine ⟨number.trans inv.number, ack, top, sent, fun i within used => ?_, fun segment among later => ?_⟩
  · dsimp only at used ⊢
    rw [queue] at used ⊢
    obtain ⟨carries, ends, _⟩ := inv.slots i within used
    exact ⟨carries, ends, between i within used⟩
  · obtain ⟨i, within, used, held⟩ := inv.available segment among (lt_of_le_of_lt (le_max_left ..) later)
    exact ⟨i, within, by rwa [queue], held⟩

theorem Inv.received (ack : next.sendAckNo = s.conn.sendAckNo) : Inv { s with conn := next } :=
  ⟨number.trans inv.number, ack.trans inv.ack, inv.top, inv.within, queue ▸ inv.slots, queue ▸ inv.available⟩

end

theorem step_inv (inv : Inv s) {event : Event} (may : Allowed s event) (orderly : Orderly s event) {next : Sender}
    (moved : step s event = some next) : Inv next ∧ s.acked ≤ next.acked ∧ Retains s next := by
  cases event with
  | write appData jiffies =>
    obtain ⟨mid, swept, result⟩ := writeLoop_spec s.conn (writable appData) jiffies maxTcpsndWindow 0
    obtain ⟨after, retains⟩ := inv.swept swept orderly
    rw [step, tcpWrite] at moved
    rcases result with full | ⟨i, within, free, wrote⟩
    · rw [full] at moved
      cases moved
      exact ⟨after, le_refl _, retains⟩
    rw [wrote] at moved
    cases moved
    refine ⟨after.filled free within (writable appData) jiffies, le_refl _, fun j inside used => ?_⟩
    rcases retains j inside used with ⟨same, held⟩ | done
    · have apart : j ≠ i := fun here => used (same.len ▸ here ▸ free)
      have slot : (filled mid i (writable appData) jiffies).sendQueue j = mid.sendQueue j :=
        update_of_ne apart ..
      rw [← slot] at same
      exact .inl ⟨same, (update_of_ne apart ..).trans held⟩
    · exact .inr done
  | housekeeper jiffies sent =>
    cases moved
    obtain ⟨after, retains⟩ := inv.swept (housekeeper_swept s.conn jiffies sent) orderly
    exact ⟨after, le_refl _, retains⟩
  | arrive pkt tcpHeaderLen position =>
    obtain ⟨⟨ret, conn, out⟩, read, moved⟩ := Run.bind_iff.1 moved
    obtain ⟨queue, number, ack⟩ := tcpRead_send read
    have kept : ∀ i, Same (conn.sendQueue i) (s.conn.sendQueue i) := fun i => by
      rw [queue]
      exact ⟨rfl, rfl, rfl⟩
    cases acks : pkt.flags.ack with
    | true =>
      obtain ⟨sent, ackno⟩ := may acks
      obtain ⟨ahead, between⟩ := orderly acks
      simp only [acks, if_true] at moved ack
      cases moved
      exact ⟨inv.acknowledged queue number (ack.trans ackno) sent ahead between, ahead, fun i _ _ => .inl ⟨kept i, rfl⟩⟩
    | false =>
      simp only [acks, Bool.false_eq_true, if_false] at moved ack
      cases moved
      exact ⟨inv.received queue number ack, le_refl _, fun i _ _ => .inl ⟨kept i, rfl⟩⟩

theorem send_queue_orderly
    (reached : Run.Reachable Start step (fun s event => Allowed s event ∧ Orderly s event) s) :
    (∀ segment ∈ s.written, s.highest < segment.ends ->
      ∃ i < maxTcpsndWindow, Carries (s.conn.sendQueue i) segment) ∧
    ∀ event, Allowed s event -> Orderly s event -> ∀ next, step s event = some next ->
      s.acked ≤ next.acked ∧ next.conn.sendAckNo = uint32 next.acked ∧ Retains s next := by
  have inv : Inv s := reached.invariant (fun _ => Start.inv) fun _ _ _ inv may moved =>
    (step_inv inv may.1 may.2 moved).1
  refine ⟨fun segment among ahead => ?_, fun event may orderly next moved => ?_⟩
  · obtain ⟨i, within, used, rfl⟩ := inv.available segment among ahead
    exact ⟨i, within, (inv.slots i within used).1⟩
  · obtain ⟨after, forward, retains⟩ := step_inv inv may orderly moved
    exact ⟨forward, after.ack, retains⟩

end

def fresh : Sender := ⟨tcpConnNew 0 fun _ => ⟨{}, 0, 0, []⟩, 0x20000, 0, 0, [], fun _ => ⟨0, []⟩⟩

theorem fresh_start : Start fresh := ⟨0, _, _, rfl⟩

def once : Sender := (step fresh (.write [1, 2] 1)).getD fresh
def twice : Sender := (step once (.write [3, 4] 2)).getD fresh
def halfAcked : Sender := (step twice (.arrive ⟨{ ack := true }, 1, 0x20002, []⟩ 20 0x20002)).getD fresh

-- Two segments are written, the first is acknowledged and its entry freed.
theorem send_queue_orderly_halfAcked : ∃ next, step halfAcked (.housekeeper 3 fun _ => true) = some next ∧
    Retains halfAcked next ∧ next.acked = 0x20002 ∧ (next.conn.sendQueue 0).len = 0 ∧
    ∃ i < maxTcpsndWindow, Carries (halfAcked.conn.sendQueue i) ⟨0x20002, [3, 4]⟩ := by
  have first : Allowed fresh (.write [1, 2] 1) ∧ Orderly fresh (.write [1, 2] 1) :=
    ⟨trivial, fun _ _ used => absurd rfl used⟩
  have second : Allowed once (.write [3, 4] 2) ∧ Orderly once (.write [3, 4] 2) := by
    simp only [Allowed, Orderly]
    decide +kernel
  have third : Allowed twice (.arrive ⟨{ ack := true }, 1, 0x20002, []⟩ 20 0x20002) ∧
      Orderly twice (.arrive ⟨{ ack := true }, 1, 0x20002, []⟩ 20 0x20002) := by
    simp only [Allowed, Orderly]
    decide +kernel
  have last : Orderly halfAcked (.housekeeper 3 fun _ => true) := by
    simp only [Orderly]
    decide +kernel
  have reached : Run.Reachable Start step (fun s event => Allowed s event ∧ Orderly s event) halfAcked :=
    .next (.next (.next (.start fresh_start) first rfl) second rfl) third rfl
  have orderly := send_queue_orderly reached
  exact ⟨_, rfl, (orderly.2 (.housekeeper 3 fun _ => true) trivial last _ rfl).2.2, rfl, by decide +kernel,
    orderly.1 ⟨0x20002, [3, 4]⟩ (by decide +kernel) (by decide +kernel)⟩

def wrapped : Sender where
  conn := { tcpConnNew 0 (fun _ => ⟨{}, 0, 0, []⟩) with
    sendSeqNo := 4
    sendAckNo := 0xfffffffe
    squeueSize := 1
    sendQueue := fun i => if i = 0 then ⟨⟨{ ack := true, psh := true }, 2, 1, [1, 2]⟩, 56, 2, 1⟩ else
      ⟨⟨{}, 0, 0, []⟩, 0, 0, 0⟩ }
  sent := 0x100000004
  acked := 0xfffffffe
  highest := 0xfffffffe
  written := [⟨0x100000002, [1, 2]⟩]
  holds _ := ⟨0x100000002, [1, 2]⟩

theorem ack_handling_slips :
    (∃ last, [.write [1, 2] 1, .write [3, 4] 2, .arrive ⟨{ ack := true }, 1, 0x20004, []⟩ 20 0x20004,
        .arrive ⟨{ ack := true }, 1, 0x20002, []⟩ 20 0x20002].foldlM step fresh = some last ∧
      last.highest = 0x20004 ∧ last.conn.sendAckNo = 0x20002) ∧
    (∃ last, [.write [1, 2] 1, .arrive ⟨{ ack := true }, 1, 0x20001, []⟩ 20 0x20001,
        .housekeeper 3 fun _ => true].foldlM step fresh = some last ∧
      last.written = [⟨0x20000, [1, 2]⟩] ∧ last.highest = 0x20001 ∧ (last.conn.sendQueue 0).len = 0) ∧
    ∃ last, step wrapped (.housekeeper 3 fun _ => true) = some last ∧ wrapped.highest < (wrapped.holds 0).ends ∧
      (last.conn.sendQueue 0).len = 0 :=
  ⟨⟨_, rfl, rfl, rfl⟩, ⟨_, rfl, rfl, rfl, rfl⟩, _, rfl, by decide, rfl⟩

end JinyKernel.Tcp.Send
