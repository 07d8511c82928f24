import Mathlib.Data.BitVec

-- `wait_queue` of ipc.cc: `sleep_ticks` count from the task before; 0 is no task.

namespace JinyKernel.WaitQueue

abbrev Long := BitVec 64

abbrev Queue := List (Nat × Long)

-- Past the last task the new one takes what is left of its ticks.
def addLoop (p : Nat) (ticks : Long) : Long -> Queue -> Queue
  | cumTicks, [] => [(p, ticks - cumTicks)]
  | prevCumTicks, (task, sleepTicks) :: rest =>
    let cumTicks := prevCumTicks + sleepTicks
    if cumTicks.toInt > ticks.toInt then
      (p, ticks - prevCumTicks) :: (task, sleepTicks - (ticks - prevCumTicks)) :: rest
    else (task, sleepTicks) :: addLoop p ticks cumTicks rest

def addToMe (p : Nat) (ticks : Long) : Queue -> Queue
  | [] => [(p, ticks)]
  | queue => addLoop p ticks 0 queue

-- Unlinking a task hands its ticks to the one behind it.
def unlink (sleepTicks : Long) : Queue -> Queue
  | [] => []
  | (next, gap) :: rest => (next, gap + sleepTicks) :: rest

def delLoop (p : Nat) : Queue -> Bool × Queue
  | [] => (false, [])
  | (task, sleepTicks) :: rest =>
    if p = task then (true, unlink sleepTicks rest)
    else
      let (ret, rest) := delLoop p rest
      (ret, (task, sleepTicks) :: rest)

def delFromMe (p : Nat) (queue : Queue) : Bool × Queue :=
  if p = 0 then (false, queue) else delLoop p queue

def wakeupPass : Queue -> Option Nat × Queue
  | [] => (none, [])
  | (task, sleepTicks) :: rest => (some task, (delFromMe task ((task, sleepTicks) :: rest)).2)

def checkWaitqueue : Queue -> Option Nat × Queue
  | [] => (none, [])
  | (task, ticks) :: rest =>
    let sleepTicks := ticks - 1
    -- one task at most leaves the queue, whatever stands behind it
    if sleepTicks.toInt ≤ 0 then (some task, (delFromMe task ((task, sleepTicks) :: rest)).2)
    else (none, (task, sleepTicks) :: rest)

def ipcCheckWaitqueues (waitQueues : Nat -> Option Queue) : (Nat -> Option Nat) × (Nat -> Option Queue) :=
  (fun i => (waitQueues i).bind fun queue => (checkWaitqueue queue).1,
    fun i => (waitQueues i).map fun queue => (checkWaitqueue queue).2)

end JinyKernel.WaitQueue
