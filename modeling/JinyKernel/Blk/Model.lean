import Mathlib.Data.List.Basic

-- kernel/blk_sched.cc: a step is one look at a slot or one store; `none` is `BUG()`.

namespace JinyKernel.Blk

open Function

def maxDiskReqs : Nat := 100

def maxReceived : Nat := 63

def waitLimit : Nat := 400

inductive ReqState where
  | idle
  | queued
  | completed
  deriving DecidableEq

structure Slot where
  buf : Option Nat
  dev : Nat
  state : ReqState
  readAhead : Bool
  reqNo : Nat

inductive Phase where
  | away
  | created (buf dev : Nat) (readAhead cached : Bool)
  -- at the entry of `get_from_diskreq`
  | fetching (slot reqNo : Nat)
  | waiting (slot reqNo start : Nat)
  | awake (slot reqNo start : Nat)
  | returned (slot : Nat)
  | cleared (slot : Nat)
  deriving DecidableEq

inductive Pc where
  | look (i : Nat)
  | mark (i j space : Nat) (mbufs : List Nat)
  | send (i : Nat) (mbufs : List Nat)
  | revert (i : Nat) (mbufs : List Nat)
  | poll (i : Nat)
  | extract (i dev count : Nat)
  | finish (i : Nat)

-- `queue` are the buffers at a device, `used` those it has finished with; the last four fields are counts.
structure State where
  slots : Nat -> Slot
  currentReqNo : Nat
  callers : Nat -> Phase
  pc : Pc
  jiffies : Nat
  queue : Nat -> List Nat
  used : Nat -> List (Nat × Nat)
  buffers : Nat
  posted : Nat -> Nat
  freed : Nat -> Nat
  taken : Nat -> Nat
  released : Nat -> Nat

namespace State

variable (s : State)

def setSlot (i : Nat) (slot : Slot) : State := { s with slots := update s.slots i slot }

def setCaller (c : Nat) (phase : Phase) : State := { s with callers := update s.callers c phase }

def setState (i : Nat) (state : ReqState) : State := s.setSlot i { s.slots i with state := state }

def goto (pc : Pc) : State := { s with pc := pc }

def putFreePages (buf : Option Nat) : State :=
  match buf with
  | some b => { s with freed := update s.freed b (s.freed b + 1) }
  | none => s

def release (i : Nat) : State :=
  { s.setSlot i { s.slots i with buf := none } with released := update s.released i (s.released i + 1) }

def firstFree : Option Nat := (List.range maxDiskReqs).find? fun i => (s.slots i).buf = none

def slotOf (b : Nat) : Option Nat := (List.range maxDiskReqs).find? fun i => (s.slots i).buf = some b

end State

def nextReqNo (currentReqNo : Nat) : Nat := (if currentReqNo = 0 then 1 else currentReqNo) + 1

variable (s : State)

def takeSlot (i buf dev : Nat) (readAhead : Bool) : State :=
  let reqNo := nextReqNo s.currentReqNo
  { s.setSlot i { buf := some buf, dev := dev, state := .idle, readAhead := readAhead, reqNo := reqNo } with
    currentReqNo := reqNo
    taken := update s.taken i (s.taken i + 1) }

def diskioSubmitRequests (c buf dev : Nat) (readAhead cached : Bool) : State :=
  if readAhead ∧ ¬ cached then s.setCaller c .away
  else
    match s.firstFree with
    | none => { s with currentReqNo := nextReqNo s.currentReqNo }.setCaller c .away
    | some i =>
      let s := takeSlot s i buf dev readAhead
      s.setCaller c (if readAhead then .away else .fetching i s.currentReqNo)

def diskIo (c : Nat) : State :=
  match s.callers c with
  | .away => s
  | .created buf dev readAhead cached => diskioSubmitRequests s c buf dev readAhead cached
  | .fetching i reqNo =>
    if (s.slots i).buf ≠ none ∧ (s.slots i).reqNo = reqNo then s.setCaller c (.waiting i reqNo s.jiffies)
    else s.setCaller c .away
  | .waiting i reqNo start =>
    if (s.slots i).state = .completed then (s.putFreePages (s.slots i).buf).setCaller c (.returned i)
    else s.setCaller c (.awake i reqNo start)
  | .awake i reqNo start =>
    if s.jiffies - start > waitLimit then s.setCaller c .away else s.setCaller c (.waiting i reqNo start)
  | .returned i => (s.setState i .idle).setCaller c (.cleared i)
  | .cleared i => (s.release i).setCaller c .away

def markSlot (i j space : Nat) (mbufs : List Nat) : State :=
  match (s.slots j).buf with
  | some b =>
    if (s.slots j).state = .idle ∧ (s.slots j).dev = (s.slots i).dev then
      (s.setState j .queued).goto (.mark i (j + 1) space (mbufs ++ [b]))
    else s.goto (.mark i (j + 1) space mbufs)
  | none => s.goto (.mark i (j + 1) space mbufs)

def post (dev b : Nat) : State :=
  { s with
    queue := update s.queue dev (s.queue dev ++ [b])
    posted := update s.posted b (s.posted b + 1) }

def complete (dev : Nat) (b code : Nat) (rest : List (Nat × Nat)) : Option State :=
  (s.slotOf b).map fun i =>
    { s with used := update s.used dev rest }.setState i (if code = 0 then .completed else .idle)

def collectReadAhead (i : Nat) : State :=
  if (s.slots i).state = .completed ∧ (s.slots i).readAhead ∧ (s.slots i).buf ≠ none then
    ((s.putFreePages (s.slots i).buf).setState i .idle).release i
  else s

-- `n` is what the driver reports of its space, and whether it takes another buffer.
def diskioThread (n : Nat) : Option State :=
  match s.pc with
  | .look i =>
    if maxDiskReqs ≤ i then some (s.goto (.look 0))
    else if (s.slots i).buf = none then some (s.goto (.look (i + 1)))
    else if (s.slots i).state = .idle then some (s.goto (.mark i i n []))
    else some (s.goto (.poll i))
  | .mark i j space mbufs =>
    if j < maxDiskReqs ∧ mbufs.length < space then some (markSlot s i j space mbufs)
    else some (s.goto (if mbufs = [] then .poll i else .send i mbufs))
  | .send i [] => some (s.goto (.poll i))
  | .send i (b :: rest) =>
    if n = 0 then some (s.goto (.revert i (b :: rest)))
    else some ((post s (s.slots i).dev b).goto (.send i rest))
  | .revert i [] => some (s.goto (.poll i))
  | .revert i (b :: rest) =>
    match s.slotOf b with
    | some m => some ((s.setState m .idle).goto (.revert i rest))
    | none => some (s.goto (.revert i rest))
  | .poll i =>
    if (s.slots i).state = .queued then
      some (s.goto (.extract i (s.slots i).dev (min maxReceived (s.used (s.slots i).dev).length)))
    else some (s.goto (.finish i))
  | .extract i _ 0 => some (s.goto (.finish i))
  | .extract i dev (count + 1) =>
    match s.used dev with
    | [] => some (s.goto (.finish i))
    | (b, code) :: rest => (complete s dev b code rest).map fun s => s.goto (.extract i dev count)
  | .finish i => some ((collectReadAhead s i).goto (.look (i + 1)))

inductive Event where
  | create (c dev : Nat) (readAhead cached : Bool)
  | caller (c : Nat)
  | thread (n : Nat)
  | device (dev b code : Nat)
  | elapse (jiffies : Nat)
  deriving DecidableEq

def step : Event -> Option State
  | .create c dev readAhead cached =>
    if s.callers c = .away then
      some ({ s with buffers := s.buffers + 1 }.setCaller c (.created s.buffers dev readAhead cached))
    else some s
  | .caller c => some (diskIo s c)
  | .thread n => diskioThread s n
  | .device dev b code =>
    if b ∈ s.queue dev then
      some { s with
        queue := update s.queue dev ((s.queue dev).erase b)
        used := update s.used dev (s.used dev ++ [(b, code)]) }
    else some s
  | .elapse jiffies => some { s with jiffies := s.jiffies + jiffies }

end JinyKernel.Blk
