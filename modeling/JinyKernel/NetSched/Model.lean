import JinyKernel.Fifo.Model
import JinyKernel.Shared.Memory
import JinyKernel.Virtio.Model

-- kernel/network_sched.cc over virtio_net.cc; `none` is a break point, a bad access or a loop out of rounds.

namespace JinyKernel.NetSched

open Fifo (FifoQueue)
open Virtio (Mbuf VringQueue bulkAddToQueue)

def maxBufListSize : Nat := 64

structure Driver where
  sendMbufList : Nat -> Mbuf
  sendMbufStart : Nat := 0
  sendMbufLen : Nat := 0
  sends : List VringQueue
  posted : List (Nat × Nat) := []

-- `received` is what went to `netif_rx`; `fills` counts the calls of `burst_recv`.
structure Sched where
  maxcpus : Nat
  sendQueues : Nat -> FifoQueue
  sendqsEmpty : Bool := true
  lastQ : Nat := 0
  driver : Driver
  devices : List VringQueue := []
  received : List (Nat × Nat) := []
  fills : Nat := 0
  inprogress : Bool := false

section

variable (sched : Sched)

def sendqAdd (cpu buf : Nat) (len writeFlags : Int) : Option (Bool × Sched) := do
  let (ret, queue) ← Fifo.addToQueue (sched.sendQueues cpu) buf len writeFlags
  let sched := { sched with sendQueues := Function.update sched.sendQueues cpu queue }
  some (ret, if sched.sendqsEmpty ∧ ret then { sched with sendqsEmpty := false } else sched)

def isEmpty (queue : FifoQueue) : Option Bool := do
  let entry ← queue.entry queue.consumer.index
  some (entry.buf == 0)

def nextCpu (maxcpus cpu : Nat) : Nat := if cpu + 1 ≥ maxcpus then 0 else cpu + 1

def removeInto (cpu pkts : Nat) : Option (Nat × Sched) := do
  let (bufs, queue) ← Fifo.bulkRemoveFromQueue (sched.sendQueues cpu) (maxBufListSize - pkts)
  let list := Memory.store sched.driver.sendMbufList pkts (bufs.map fun (buf, len) => { buf := buf, len := len })
  some (pkts + bufs.length, { sched with
    sendQueues := Function.update sched.sendQueues cpu queue
    driver := { sched.driver with sendMbufList := list } })

def scanLoop : Nat -> Nat -> Nat -> Sched -> Option (Nat × Nat × Sched)
  | 0, cpu, pkts, sched => some (cpu, pkts, sched)
  | left + 1, cpu, pkts, sched => do
      let cpu := nextCpu sched.maxcpus cpu
      if ← isEmpty (sched.sendQueues cpu) then scanLoop left cpu pkts sched
      else
        let (pkts, sched) ← removeInto sched cpu pkts
        if pkts ≥ maxBufListSize then some (cpu, pkts, sched) else scanLoop left cpu pkts sched

-- The flag is raised first if the first pass found nothing.
def secondPass (cpu pkts : Nat) (sched : Sched) : Option (Nat × Nat × Sched) :=
  if pkts ≥ maxBufListSize then some (cpu, pkts, sched)
  else scanLoop sched.maxcpus sched.lastQ pkts (if pkts = 0 then { sched with sendqsEmpty := true } else sched)

def sendqRemove : Option (Bool × Sched) :=
  if sched.sendqsEmpty then some (false, sched)
  else do
    let (cpu, pkts, sched) ← scanLoop sched.maxcpus sched.lastQ 0 sched
    let (cpu, pkts, sched) ← secondPass cpu pkts sched
    if pkts > 0 then
      some (true, { sched with driver := { sched.driver with sendMbufLen := pkts }, lastQ := cpu, sendqsEmpty := false })
    else some (false, sched)

def frameAt (vq : VringQueue) (head : Nat) : Nat × Nat :=
  ((vq.desc (vq.desc head).next).addr, (vq.desc (vq.desc head).next).len)

def posts (before after : VringQueue) : List (Nat × Nat) :=
  (Cursors.pending (2 ^ 16) after.num after.availRing before.availIdx after.availIdx).map (frameAt after)

def burstLoop (driver : Driver) : Nat -> List VringQueue -> Option (Nat × List VringQueue × List (Nat × Nat))
  | ret, [] => some (ret, [], [])
  | ret, vq :: rest => do
      let mbufs := Memory.window driver.sendMbufList (driver.sendMbufStart + ret) (driver.sendMbufLen - ret)
      let (qret, added) ← bulkAddToQueue .net vq mbufs true true
      if qret ≠ 0 ∧ ret + qret = driver.sendMbufLen then some (ret + qret, added :: rest, posts vq added)
      else
        let (ret, others, later) ← burstLoop driver (ret + qret) rest
        some (ret, added :: others, posts vq added ++ later)

def burstSend (driver : Driver) : Option (Nat × Driver) :=
  if driver.sendMbufLen = 0 then some (0, driver)
  else if driver.sendMbufStart + driver.sendMbufLen > maxBufListSize then none
  else do
    let sends ← driver.sends.mapM fun vq => Virtio.bulkRemoveFromQueue vq maxBufListSize
    let (ret, sends, sent) ← burstLoop driver 0 sends
    let driver := { driver with sends := sends, posted := driver.posted ++ sent }
    if ret = 0 then some (ret, driver)
    else if ret = driver.sendMbufLen then some (ret, { driver with sendMbufStart := 0, sendMbufLen := 0 })
    else some (ret, { driver with
      sendMbufStart := driver.sendMbufStart + ret
      sendMbufLen := driver.sendMbufLen - ret })

def Sched.burst : Option (Nat × Sched) := do
  let (ret, driver) ← burstSend sched.driver
  some (ret, { sched with driver := driver })

-- `JFAIL`, the result of an unsuccessful `sendq_remove`, is 0.
def bulkRemoveFromSendQueue : Option (Nat × Sched) :=
  if sched.sendqsEmpty ∧ sched.driver.sendMbufLen = 0 then some (0, sched)
  else if sched.driver.sendMbufLen ≠ 0 then sched.burst
  else do
    let (ret, sched) ← sendqRemove sched
    if ret then sched.burst else some (0, sched)

def sendLoop (burst : Int) : Nat -> Nat -> Sched -> Option (Nat × Sched)
  | 0, _, _ => none
  | rounds + 1, pktSend, sched => do
      let (pkts, sched) ← bulkRemoveFromSendQueue sched
      if pkts > 0 ∧ ((pktSend + pkts : Nat) : Int) < burst then sendLoop burst rounds (pktSend + pkts) sched
      else some (pktSend + pkts, sched)

def netBhSend (burst : Int) (rounds : Nat) (sched : Sched) : Option (Nat × Sched) :=
  if sched.sendqsEmpty ∨ burst = 0 then some (0, sched) else sendLoop burst rounds 0 sched

end

def receiveLoop : Nat -> VringQueue -> Option (List (Nat × Nat) × VringQueue)
  | 0, vq => some ([], vq)
  | count + 1, vq => do
      let frame := (va (vq.desc vq.nextUsed.id).addr, vq.nextUsed.len)
      let vq ← Virtio.takeUsed true vq
      let (frames, vq) ← receiveLoop count vq
      some (frame :: frames, vq)

def recvPkts (totalPkts : Int) (vq : VringQueue) : Nat :=
  -- `list_len` is unsigned, and so is the comparison
  let listLen : Int := if totalPkts % 2 ^ 32 < maxBufListSize then totalPkts % 2 ^ 32 else maxBufListSize
  let pktsLength := Cursors.distance (2 ^ 16) vq.lastUsedIdx vq.usedIdx
  if (pktsLength : Int) > listLen then listLen.toNat else pktsLength

-- `fill_empty_buffers` gets its buffers from `pages`.
def burstRecv (totalPkts : Int) (pages : List Nat) (vq : VringQueue) : Option (Nat × List (Nat × Nat) × VringQueue) :=
  if recvPkts totalPkts vq = 0 then some (0, [], vq)
  else do
    let (frames, vq) ← receiveLoop (recvPkts totalPkts vq) vq
    let fresh := (pages.take 128).map fun page => { buf := page, len := memNetbufSize }
    let (_, vq) ← bulkAddToQueue .net vq fresh false false
    some (0, frames, vq)

def recvLoop (supply : Nat -> List Nat) (burst : Int) :
    Nat -> Nat -> Nat -> VringQueue -> Option (Nat × List (Nat × Nat) × VringQueue × Nat)
  | 0, _, _, _ => none
  | rounds + 1, fills, ret, vq =>
    if (ret : Int) < burst then do
      let (pkts, frames, vq) ← burstRecv burst (supply fills) vq
      if pkts = 0 then some (ret, frames, vq, fills + 1)
      else
        let (ret, later, vq, fills) ← recvLoop supply burst rounds (fills + 1) (ret + pkts) vq
        some (ret, frames ++ later, vq, fills)
    else some (ret, [], vq, fills)

def devicesLoop (supply : Nat -> List Nat) (burst : Int) (rounds : Nat) :
    Nat -> List VringQueue -> Option (Nat × List (Nat × Nat) × List VringQueue × Nat)
  | fills, [] => some (0, [], [], fills)
  | fills, vq :: rest =>
    if Virtio.moreUsed vq then do
      let (ret, frames, vq, fills) ← recvLoop supply burst rounds fills 0 vq
      let (pkts, later, others, fills) ← devicesLoop supply burst rounds fills rest
      some (ret + pkts, frames ++ later, vq :: others, fills)
    else do
      let (pkts, later, others, fills) ← devicesLoop supply burst rounds fills rest
      some (pkts, later, vq :: others, fills)

def netBhRecv (supply : Nat -> List Nat) (burst : Int) (rounds : Nat) (sched : Sched) : Option (Nat × Sched) := do
  let (pktConsumed, frames, devices, fills) ← devicesLoop supply burst rounds sched.fills sched.devices
  some (pktConsumed, { sched with devices := devices, received := sched.received ++ frames, fills := fills })

structure Conf where
  netbhCpu : Nat := 0
  netSendBurst : Int := 128
  netRecvBurst : Int := 128

def netBhRound (conf : Conf) (supply : Nat -> List Nat) (rounds : Nat) (sched : Sched) : Option (Nat × Sched) := do
  let (sent, sched) ← netBhSend conf.netSendBurst rounds sched
  let (got, sched) ← netBhRecv supply conf.netRecvBurst rounds sched
  some (sent + got, sched)

def netBhLoop (conf : Conf) (supply : Nat -> List Nat) (limit : Nat) : Nat -> Sched -> Option (Nat × Sched)
  | 0, _ => none
  | rounds + 1, sched => do
      let (ret, sched) ← netBhRound conf supply limit sched
      if ret > 0 then netBhLoop conf supply limit rounds sched else some (ret, sched)

def netBh (conf : Conf) (supply : Nat -> List Nat) (rounds cpu : Nat) (sched : Sched) : Option (Nat × Sched) :=
  if conf.netbhCpu ≠ cpu then some (0, sched)
  else if sched.inprogress then some (0, sched)
  else do
    let (ret, sched) ← netBhLoop conf supply rounds rounds { sched with inprogress := true }
    some (ret, { sched with inprogress := false })

end JinyKernel.NetSched
