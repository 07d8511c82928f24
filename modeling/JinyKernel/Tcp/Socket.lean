import JinyKernel.Fifo.Contents
import JinyKernel.Tcp.Model

-- A read checks the state of the connection and then looks at the queue in rounds.

namespace JinyKernel.Tcp

open Fifo (ContentQueue)

structure TcpData where
  data : List UInt8
  offset : Nat
  consumed : Nat
  deriving DecidableEq

def TcpData.rest (buf : TcpData) : List UInt8 := buf.data.drop buf.consumed

structure Socket where
  conn : Connection
  inputQueue : ContentQueue TcpData

def defaultPktProcess (sock : Socket) (pkt : Packet) (tcpHeaderLen : Nat) : Option Socket := do
  let (ret, conn, _) ← tcpRead sock.conn pkt pkt.data.length tcpHeaderLen
  if ret > 0 then
    let buf : TcpData := ⟨pkt.data, 10 + 14 + 20 + tcpHeaderLen - tcpUserDataHdr, 0⟩
    some ⟨conn, sock.inputQueue.addToQueue buf ret.toNat⟩
  else some { sock with conn := conn }

structure ReadCall where
  appLen : Nat
  nonblock : Bool

def socketRead (sock : Socket) (appLen : Nat) (nonblock : Bool) : Option ReadCall :=
  if sock.conn.state = .closed then none else some ⟨appLen, nonblock⟩

def readRound (sock : Socket) (call : ReadCall) : Option (Socket × List UInt8 × Option ReadCall) :=
  match sock.inputQueue.peepFromQueue with
  | none => some (sock, [], if call.nonblock then none else some call)
  | some buf =>
    let left := buf.data.length - buf.consumed
    let retLen := if left ≥ call.appLen then call.appLen else left
    if buf.offset + buf.consumed > memNetbufSize then none
    else
      let consumed := buf.consumed + retLen
      let queue := sock.inputQueue.writeFirst { buf with consumed := consumed }
      some ({ sock with inputQueue := if buf.data.length = consumed then queue.removeFromQueue else queue },
        buf.rest.take retLen, none)

end JinyKernel.Tcp
