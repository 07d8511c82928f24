import JinyKernel.Shared.Memory
import JinyKernel.Tcp.Socket

-- `default_pkt_process` on the bytes of a frame, the socket tables and the input queues.

namespace JinyKernel.Net

open Fifo (ContentQueue)
open Tcp (Connection Packet tcpUserDataHdr netHtonl)

def ipprotoTcp : Nat := 0x06
def ipprotoUdp : Nat := 0x11
def maxTcpListen : Nat := 30

structure Buffer where
  bytes : Nat -> UInt8
  recvLen : Nat

namespace Buffer

variable (buf : Buffer)

def load (pos width : Nat) : Nat := Words.ofBytes (Memory.window buf.bytes pos width)

def storeUint64 (pos value : Nat) : Buffer :=
  { buf with bytes := fun i =>
      if pos ≤ i ∧ i < pos + 8 then (Words.bytesOf 8 value).getD (i - pos) 0 else buf.bytes i }

-- the card's header takes 10 bytes, `machdr` 14, `iphdr` 20
def totLen : Nat := buf.load 26 2
def fragOff : Nat := buf.load 30 2
def protocol : Nat := buf.load 33 1
def saddr : Nat := buf.load 36 4
def daddr : Nat := buf.load 40 4
def source : Nat := buf.load 44 2
def dest : Nat := buf.load 46 2
def seqno : Nat := buf.load 48 4
def ackno : Nat := buf.load 52 4
def tcpoffset : Nat := buf.load 56 1
def flags : Nat := buf.load 57 1

-- `struct tcp_data`, laid over the start of the buffer
def len : Nat := buf.load 0 8
def offset : Nat := buf.load 8 8
def consumed : Nat := buf.load 16 8

end Buffer

def htons (value : Nat) : Nat := value / 2 ^ 8 % 2 ^ 8 + value % 2 ^ 8 * 2 ^ 8

variable (buf : Buffer)

def tcpHeaderLen : Nat := buf.tcpoffset / 2 ^ 4 * 4

-- The length is taken from the header of the frame, and may come out negative.
def tcpDataLen : Int := (htons buf.totLen : Int) - (20 + tcpHeaderLen buf)

def udpDataLen : Int := (htons buf.totLen : Int) - (20 + 8)

def packet : Packet where
  flags :=
    { fin := buf.flags.testBit 0, syn := buf.flags.testBit 1, rst := buf.flags.testBit 2
      psh := buf.flags.testBit 3, ack := buf.flags.testBit 4 }
  seqno := netHtonl buf.seqno
  ackno := netHtonl buf.ackno
  data := Memory.window buf.bytes (10 + 14 + 20 + tcpHeaderLen buf) (tcpDataLen buf).toNat

structure TcpConnection extends Connection where
  connNo : Nat
  srcport : Nat
  destport : Nat
  ipSaddr : Nat
  ipDaddr : Nat

inductive SockType where
  | stream
  | dgram
  deriving DecidableEq

structure NetworkConnection where
  type : SockType
  srcIp : Nat := 0
  destIp : Nat := 0
  srcPort : Nat := 0
  destPort : Nat := 0
  tcpConn : Option TcpConnection := none
  newTcpConn : List (Option TcpConnection) := List.replicate maxTcpListen none

structure Socket where
  networkConn : NetworkConnection
  inputQueue : ContentQueue Buffer

-- The socket tables without their unused ends.
structure Tables where
  tcpConnectedList : List (Option Socket)
  tcpListnerList : List (Option Socket)
  udpList : List (Option Socket)
  statTcpNewConn : Nat

def tcpData : Buffer :=
  let offset := 10 + 14 + 20 + tcpHeaderLen buf - tcpUserDataHdr
  ((buf.storeUint64 0 (tcpDataLen buf).toNat).storeUint64 16 0).storeUint64 8 offset

-- `tcp_read` with its stores to the buffer, which are for a segment that is taken.
def tcpRead (conn : TcpConnection) (recvData : Buffer) : Option (Int × TcpConnection × Buffer × List Packet) := do
  let (ret, after, out) ← Tcp.tcpRead conn.toConnection (packet recvData) (tcpDataLen recvData) (tcpHeaderLen recvData)
  some (ret, { conn with toConnection := after }, if ret > 0 then tcpData recvData else recvData, out)

-- The loop of `tcp_conn_new`: `none` for a duplicate, else the first empty slot.
def pendingLoop (srcport : Nat) : List (Option TcpConnection) -> Nat -> Option Nat -> Option (Option Nat)
  | [], _, emptyI => some emptyI
  | some pending :: rest, i, emptyI =>
    if pending.destport = srcport then none else pendingLoop srcport rest (i + 1) emptyI
  | none :: rest, i, emptyI => pendingLoop srcport rest (i + 1) (if emptyI = none then some i else emptyI)

variable (bufs : Nat -> Packet)

variable (conn : NetworkConnection)

-- `bufs` is what the allocated send buffers hold.
def tcpConnNew (newConn : Nat) (recvPkt : Buffer) : NetworkConnection × Nat × Bool :=
  match pendingLoop recvPkt.source conn.newTcpConn 0 none with
  | none => (conn, newConn, false)
  | some none => (conn, newConn, false)
  | some (some emptyI) =>
    let connNo := if newConn = 0 then 1 else newConn
    let tcpConn : TcpConnection :=
      { toConnection := Tcp.tcpConnNew (packet recvPkt).seqno bufs
        connNo := connNo
        srcport := recvPkt.dest
        destport := recvPkt.source
        ipSaddr := recvPkt.daddr
        ipDaddr := recvPkt.saddr }
    ({ conn with newTcpConn := conn.newTcpConn.set emptyI (some tcpConn) }, wrap (connNo + 1), true)

def tcpReadListenPkts (newConn : Nat) (recvData : Buffer) : NetworkConnection × Nat × Bool :=
  if (packet recvData).flags.syn then tcpConnNew bufs conn newConn recvData else (conn, newConn, false)

def findSock (test : NetworkConnection -> Bool) (list : List (Option Socket)) : Option Nat :=
  list.findIdx? fun entry => entry.any fun sock => test sock.networkConn

def connectedTest (pkt : Buffer) (conn : NetworkConnection) : Bool :=
  pkt.dest = conn.srcPort && pkt.source = conn.destPort

def destTest (pkt : Buffer) (conn : NetworkConnection) : Bool := pkt.dest = conn.srcPort

def Socket.receive (sock : Socket) (buf : Buffer) : Option Socket :=
  match sock.networkConn.tcpConn with
  | none => some sock
  | some tcpConn => do
    let (ret, tcpConn, buf, _) ← tcpRead tcpConn buf
    let conn := { sock.networkConn with tcpConn := some tcpConn }
    some ⟨conn, if ret > 0 then sock.inputQueue.addToQueue buf ret.toNat else sock.inputQueue⟩

-- Whom `default_pkt_process` passes a frame to, by the place in the table.
inductive Recipient where
  | connected (i : Nat)
  | listner (i : Nat)
  | datagram (i : Nat)
  | nobody

-- Connected sockets come before listeners, and only ports are compared.
def recipient (net : Tables) (buf : Buffer) : Option Recipient :=
  if buf.protocol = ipprotoTcp then
    if buf.fragOff ≠ 0x40 then none
    else match findSock (connectedTest buf) net.tcpConnectedList with
      | some i => some (.connected i)
      | none => match findSock (destTest buf) net.tcpListnerList with
        | some i => some (.listner i)
        | none => some .nobody
  else if buf.protocol = ipprotoUdp then
    match findSock (destTest buf) net.udpList with
    | some i => some (.datagram i)
    | none => some .nobody
  else some .nobody

def defaultPktProcess (net : Tables) (buf : Buffer) : Option Tables := do
  match ← recipient net buf with
  | .connected i =>
    let sock ← (net.tcpConnectedList[i]?).join
    let after ← sock.receive buf
    some { net with tcpConnectedList := net.tcpConnectedList.set i (some after) }
  | .listner i =>
    let sock ← (net.tcpListnerList[i]?).join
    let (conn, newConn, _) := tcpReadListenPkts bufs sock.networkConn net.statTcpNewConn buf
    some { net with
      tcpListnerList := net.tcpListnerList.set i (some { sock with networkConn := conn })
      statTcpNewConn := newConn }
  | .datagram i =>
    let sock ← (net.udpList[i]?).join
    some { net with
      udpList := net.udpList.set i (some { sock with inputQueue := sock.inputQueue.addToQueue buf buf.recvLen }) }
  | .nobody => some net

structure Copied where
  buf : Buffer
  start : Nat
  count : Int

def udpRead (recvData : Buffer) (appLen : Int) : NetworkConnection × Option Copied :=
  let conn := { conn with srcIp := recvData.saddr, destIp := recvData.daddr, destPort := recvData.source }
  if udpDataLen recvData > 0 ∧ appLen > udpDataLen recvData then
    (conn, some ⟨recvData, 10 + 20 + 8, udpDataLen recvData⟩)
  else (conn, none)

-- `socket::read` until it has data or would sleep; `none` is `BUG()`.
def socketRead (sock : Socket) (appLen : Int) : Option (Socket × Option Copied) :=
  match sock.networkConn.type with
  | .stream =>
    if sock.networkConn.tcpConn.any fun conn => conn.state = .closed then some (sock, none)
    else match sock.inputQueue.peepFromQueue with
      | none => some (sock, none)
      | some tcpData =>
        let left := wrapSub tcpData.len tcpData.consumed
        let retLen : Int := if left ≥ toUlong appLen then appLen else toInt left
        if wrap (tcpData.offset + tcpData.consumed) > memNetbufSize then none
        else
          let read := tcpData.storeUint64 16 (toUlong (tcpData.consumed + retLen))
          let queue := sock.inputQueue.writeFirst read
          some ({ sock with inputQueue := if read.len = read.consumed then queue.removeFromQueue else queue },
            some ⟨tcpData, tcpUserDataHdr + wrap (tcpData.offset + tcpData.consumed), retLen⟩)
  | .dgram =>
    match sock.inputQueue.peepFromQueue with
    | none => some (sock, none)
    | some udpData =>
      let (conn, copied) := udpRead sock.networkConn udpData appLen
      some (⟨conn, sock.inputQueue.removeFromQueue⟩, copied)

end JinyKernel.Net
