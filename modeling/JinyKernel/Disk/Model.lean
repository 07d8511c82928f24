import JinyKernel.Machine

-- `disk_io` over virtio_disk.cc: one request of whole blocks a call; `none` is a division by zero.

namespace JinyKernel.Disk

abbrev Bytes := Int -> UInt8

inductive Direction where
  | read
  | write
  deriving DecidableEq

structure Driver where
  diskSize : Nat
  blkSize : Nat
  reqBlkSize : Int

structure BlkReq where
  sector : Nat
  len : Int
  -- the caller's pages are used in place of `data`
  userData : Bool

structure Split where
  sector : Int
  initialSkip : Int
  currOffset : Int
  currLen : Int

variable (driver : Driver)

def split (len offset : Int) : Split :=
  let sector := toInt (toUlong offset / driver.blkSize : Nat)
  let initialSkip := toInt (wrapSub (toUlong offset) (wrap (toUlong sector * driver.blkSize)))
  { sector := sector
    initialSkip := initialSkip
    currOffset := toInt (offset - initialSkip)
    currLen := toInt (len + initialSkip) }

def clip (part : Split) : Int :=
  let reqLen := if part.currLen > driver.reqBlkSize then driver.reqBlkSize else part.currLen
  if toUlong (toInt (reqLen + part.currOffset)) ≥ driver.diskSize then
    toInt (wrapSub driver.diskSize (toUlong part.currOffset))
  else reqLen

def roundUp (blkSize : Nat) (reqLen : Int) : Int :=
  let blks := toInt (toUlong reqLen / blkSize : Nat)
  if wrap (toUlong blks * blkSize) ≠ toUlong reqLen then toInt (wrap (toUlong (toInt (blks + 1)) * blkSize))
  else reqLen

def makeReq (inPageCache : Bool) (part : Split) : Option BlkReq :=
  if part.currLen > 0 ∧ ¬ toUlong part.currOffset > driver.diskSize then
    some { sector := toUlong part.sector, len := roundUp driver.blkSize (clip driver part), userData := inPageCache }
  else none

def BlkReq.hostLen (req : BlkReq) : Int := if req.len < 512 then 512 else req.len

def BlkReq.position (req : BlkReq) (sectorSize : Nat) : Int := (req.sector * sectorSize : Nat)

def hostRead (diskSize : Nat) (position len : Int) (disk memory : Bytes) : Bytes := fun j =>
  if 0 ≤ j ∧ j < len ∧ position + j < diskSize then disk (position + j) else memory j

def hostWrite (diskSize : Nat) (position len : Int) (memory disk : Bytes) : Bytes := fun i =>
  if position ≤ i ∧ i < position + len ∧ i < diskSize then memory (i - position) else disk i

variable (direction : Direction)

def createBuf (req : BlkReq) (buf page : Bytes) : Bytes :=
  match direction with
  | .read => page
  -- a negative length copies nothing
  | .write => fun j => if 0 ≤ j ∧ j < req.len then buf j else page j

def tlen (userLen initialSkip : Int) : Int :=
  if toInt (driver.reqBlkSize - initialSkip) > userLen then userLen else toInt (driver.reqBlkSize - initialSkip)

def copyOut (n initialSkip : Int) (data buf : Bytes) : Bytes := fun k =>
  if 0 ≤ k ∧ k < n then data (initialSkip + k) else buf k

structure Surroundings where
  freeEntry : Bool
  timely : Bool
  page : Bytes

structure Outcome where
  ret : Int
  buf : Bytes
  disk : Bytes

def serve (driver : Driver) (sectorSize : Nat) (req : BlkReq)
    (userLen initialSkip : Int) (page buf disk : Bytes) : Outcome :=
  let n := tlen driver userLen initialSkip
  let position := req.position sectorSize
  if req.userData then
    match direction with
    | .read => ⟨n, hostRead driver.diskSize position req.hostLen disk buf, disk⟩
    | .write => ⟨n, buf, hostWrite driver.diskSize position req.hostLen buf disk⟩
  else
    let data := createBuf direction req buf page
    match direction with
    | .read => ⟨n, copyOut n initialSkip (hostRead driver.diskSize position req.hostLen disk data) buf, disk⟩
    | .write => ⟨n, copyOut n initialSkip data buf, hostWrite driver.diskSize position req.hostLen data disk⟩

def diskIo (driver : Driver) (sectorSize : Nat) (inPageCache readAhead : Bool)
    (len offset : Int) (around : Surroundings) (buf disk : Bytes) : Option Outcome :=
  if driver.blkSize = 0 then none
  else
    let part := split driver len offset
    if readAhead ∧ ¬ inPageCache then some ⟨0, buf, disk⟩
    else match makeReq driver inPageCache part with
      | none => some ⟨-1, buf, disk⟩
      | some req =>
        if ¬ around.freeEntry then some ⟨-1, buf, disk⟩
        -- a read ahead returns before the host has seen its request
        else if readAhead then some ⟨len, buf, disk⟩
        else if ¬ around.timely then some ⟨-1, buf, disk⟩
        else some (serve direction driver sectorSize req len part.initialSkip around.page buf disk)

def read (sectorSize : Nat) (inPageCache : Bool) (len : Int) (offset : Nat)
    (readAhead : Bool) (around : Surroundings) (buf disk : Bytes) : Option Outcome :=
  diskIo .read driver sectorSize inPageCache readAhead len (toInt offset) around buf disk

def write (sectorSize : Nat) (inPageCache : Bool) (len : Int) (offset : Nat)
    (around : Surroundings) (buf disk : Bytes) : Option Outcome :=
  diskIo .write driver sectorSize inPageCache false len (toInt offset) around buf disk

end JinyKernel.Disk
