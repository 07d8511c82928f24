import JinyKernel.Machine

-- `tcp_connection` of tcp.cc: packet headers carry their numbers in host order.

namespace JinyKernel.Tcp

def maxTcpsndWindow : Nat := 80
def tcpUserDataHdr : Nat := 24

def uint32 (value : Nat) : Nat := value % 2 ^ 32

def netHtonl (n : Nat) : Nat :=
  n % 2 ^ 8 * 2 ^ 24 + n / 2 ^ 8 % 2 ^ 8 * 2 ^ 16 + n / 2 ^ 16 % 2 ^ 8 * 2 ^ 8 + n / 2 ^ 24 % 2 ^ 8

structure Flags where
  fin : Bool := false
  syn : Bool := false
  rst : Bool := false
  psh : Bool := false
  ack : Bool := false
  deriving DecidableEq

structure Packet where
  flags : Flags
  seqno : Nat
  ackno : Nat
  data : List UInt8
  deriving DecidableEq

inductive ConnState where
  | created
  | initiated
  | estabilished
  | listen
  | closed
  deriving DecidableEq

-- `len` is the length of the frame in `buf`, 0 when the entry is free.
structure SendSlot where
  buf : Packet
  len : Nat
  seqNo : Nat
  lastsendTs : Nat

structure Connection where
  retransmitInuse : Bool := false
  retransmitTs : Nat := 0
  sendSeqNo : Nat
  sendAckNo : Nat := 0
  recvSeqNo : Nat
  state : ConnState := .estabilished
  squeueSize : Int := 0
  sendQueue : Nat -> SendSlot

variable (conn : Connection)

def generateTcpPkt (flags : Flags) (data : List UInt8) (seqNo : Nat) : Packet × Nat :=
  ({ flags := if data.length > 0 then { flags with psh := true } else flags
     seqno := if data.length > 0 then seqNo else if flags.syn then uint32 (seqNo + 2 ^ 32 - 1) else seqNo
     ackno := if flags.ack then conn.recvSeqNo else 0
     data := data }, 14 + 20 + 20 + data.length)

def tcpConnNew (seqno : Nat) (bufs : Nat -> Packet) : Connection where
  sendSeqNo := netHtonl 0x200
  recvSeqNo := uint32 (seqno + 1)
  sendQueue i := ⟨bufs i, 0, 0, 0⟩

def setSlot (i : Nat) (slot : SendSlot) : Connection :=
  { conn with sendQueue := Function.update conn.sendQueue i slot }

def writeLoop (data : List UInt8) (jiffies : Nat) (conn : Connection) : Nat -> Nat -> Connection × Option Nat
  | 0, _ => (conn, none)
  | n + 1, i =>
    let slot := conn.sendQueue i
    if slot.len ≠ 0 ∧ conn.sendAckNo > slot.seqNo then
      writeLoop data jiffies (setSlot conn i { slot with len := 0 }) n (i + 1)
    else if slot.len = 0 then
      let (buf, len) := generateTcpPkt conn { ack := true } data conn.sendSeqNo
      ({ setSlot conn i ⟨buf, len, conn.sendSeqNo, jiffies⟩ with
          squeueSize := conn.squeueSize + 1
          sendSeqNo := uint32 (conn.sendSeqNo + data.length) }, some i)
    else writeLoop data jiffies conn n (i + 1)

def writable (appData : List UInt8) : List UInt8 := appData.take (memNetbufSize - 100)

def tcpWrite (appData : List UInt8) (jiffies : Nat) : Connection × Option Nat :=
  writeLoop (writable appData) jiffies conn maxTcpsndWindow 0

-- `sent` tells which `net_send_eth_frame` succeed.
def housekeepLoop (jiffies : Nat) (sent : Nat -> Bool) (conn : Connection) : Nat -> Nat -> Connection × List Packet
  | 0, _ => (conn, [])
  | n + 1, i =>
    let slot := conn.sendQueue i
    if slot.len = 0 then housekeepLoop jiffies sent conn n (i + 1)
    else if conn.sendAckNo > slot.seqNo then
      housekeepLoop jiffies sent
        { setSlot conn i { slot with len := 0 } with squeueSize := conn.squeueSize - 1 } n (i + 1)
    else if jiffies = slot.lastsendTs then housekeepLoop jiffies sent conn n (i + 1)
    else if sent i then
      let (conn, frames) := housekeepLoop jiffies sent (setSlot conn i { slot with lastsendTs := jiffies }) n (i + 1)
      (conn, slot.buf :: frames)
    else housekeepLoop jiffies sent conn n (i + 1)

def housekeeper (jiffies : Nat) (sent : Nat -> Bool) : Connection × List Packet :=
  if conn.retransmitInuse ∨ conn.squeueSize = 0 ∨ conn.retransmitTs = jiffies then (conn, [])
  else
    let (conn, frames) := housekeepLoop jiffies sent conn maxTcpsndWindow 0
    ({ conn with retransmitTs := jiffies }, frames)

-- The acknowledgement of a segment replaces the last one, whatever its number.
def takeAck (pkt : Packet) : Connection :=
  if pkt.flags.ack then { conn with sendAckNo := pkt.ackno } else conn

-- The number of bytes for the socket, the connection and the reply; `none` when the data would not fit its
-- buffer.
def tcpRead (pkt : Packet) (tcpDataLen : Int) (tcpHeaderLen : Nat) : Option (Int × Connection × List Packet) :=
  let conn := takeAck conn pkt
  if pkt.flags.rst ∨ pkt.flags.fin then
    let flags : Flags := if pkt.flags.rst then { ack := true, rst := true } else { ack := true, fin := true }
    some (0, if conn.state = .estabilished then { conn with state := .closed } else conn,
      [(generateTcpPkt conn flags [] conn.sendSeqNo).1])
  else if tcpDataLen > 0 then
    if conn.recvSeqNo = pkt.seqno then
      if tcpDataLen + (10 + 14 + 20 + tcpHeaderLen - tcpUserDataHdr : Nat) > memNetbufSize then none
      else some (tcpDataLen, { conn with recvSeqNo := uint32 (pkt.seqno + tcpDataLen.toNat) }, [])
    else some (0, conn, [])
  else if pkt.flags.ack ∧ tcpDataLen = 0 then
    some (tcpDataLen, conn, [(generateTcpPkt conn { ack := true } [] conn.sendSeqNo).1])
  else some (tcpDataLen, conn, [])

def Takes (pkt : Packet) (tcpDataLen : Int) : Prop :=
  pkt.flags.rst = false ∧ pkt.flags.fin = false ∧ 0 < tcpDataLen ∧ conn.recvSeqNo = pkt.seqno

instance (pkt : Packet) (tcpDataLen : Int) : Decidable (Takes conn pkt tcpDataLen) :=
  inferInstanceAs (Decidable (_ ∧ _ ∧ _ ∧ _))

theorem takeAck_recvSeqNo (pkt : Packet) : (takeAck conn pkt).recvSeqNo = conn.recvSeqNo := by
  rw [takeAck]
  split_ifs <;> rfl

theorem takeAck_state (pkt : Packet) : (takeAck conn pkt).state = conn.state := by
  rw [takeAck]
  split_ifs <;> rfl

variable {conn} {pkt : Packet} {tcpDataLen : Int} (tcpHeaderLen : Nat)

theorem tcpRead_takes (takes : Takes conn pkt tcpDataLen) : tcpRead conn pkt tcpDataLen tcpHeaderLen =
    if tcpDataLen + (10 + 14 + 20 + tcpHeaderLen - tcpUserDataHdr : Nat) > memNetbufSize then none
    else some (tcpDataLen, { takeAck conn pkt with recvSeqNo := uint32 (pkt.seqno + tcpDataLen.toNat) }, []) := by
  obtain ⟨rst, fin, positive, number⟩ := takes
  simp only [tcpRead, takeAck_recvSeqNo, rst, fin, Bool.false_eq_true, or_self, if_false, if_pos positive, if_pos number]

theorem tcpRead_drops (drops : ¬ Takes conn pkt tcpDataLen) : ∃ ret after out,
    tcpRead conn pkt tcpDataLen tcpHeaderLen = some (ret, after, out) ∧ ret ≤ 0 ∧ after.recvSeqNo = conn.recvSeqNo ∧
      (conn.state = .closed -> after.state = .closed) := by
  have number := takeAck_recvSeqNo conn pkt
  have state := takeAck_state conn pkt
  by_cases reset : pkt.flags.rst = true ∨ pkt.flags.fin = true
  · simp only [tcpRead, if_pos reset]
    refine ⟨_, _, _, rfl, Int.le_refl 0, by split_ifs <;> exact number, fun closed => ?_⟩
    simp [state, closed]
  by_cases positive : tcpDataLen > 0
  · have other : conn.recvSeqNo ≠ pkt.seqno := by
      intro same
      rw [not_or, Bool.not_eq_true, Bool.not_eq_true] at reset
      exact drops ⟨reset.1, reset.2, positive, same⟩
    simp only [tcpRead, if_neg reset, if_pos positive, number, if_neg other]
    exact ⟨_, _, _, rfl, Int.le_refl 0, number, state.trans⟩
  · simp only [tcpRead, if_neg reset, if_neg positive]
    split_ifs <;> exact ⟨_, _, _, rfl, Int.not_lt.1 positive, number, state.trans⟩

end JinyKernel.Tcp
