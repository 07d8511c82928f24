import JinyKernel.Machine
import JinyKernel.WaitQueue.Model

-- `semaphore` of ipc.cc: every access outside `sem_lock` is a step of its own.

namespace JinyKernel.Mutex

structure Semaphore where
  count : Int
  ownerPid : Nat
  recursiveCount : Int
  waitqueue : WaitQueue.Queue

-- The constructor leaves `recursive_count` as it finds it.
def ipcMutexCreate (recursiveCount : Int) : Semaphore := ⟨1, 0, recursiveCount, []⟩

def lockTimeout : WaitQueue.Long := 10000 / 10

inductive Pc where
  | out
  | lockOwner
  | lockRecursive
  | lockDeeper
  | waitCount (timeout : WaitQueue.Long)
  | waitQueued (timeout : WaitQueue.Long)
  | asleep
  | waitSection (timeout : WaitQueue.Long)
  | setOwner
  | setRecursive
  | unlockOwner
  | unlockRecursive
  | unlockShallower
  | clearOwner
  | clearRecursive
  | signalCount
  | signalWakeup
  deriving DecidableEq

def advance (sem : Semaphore) (p : Nat) (killed : Bool) : Pc -> Option (Semaphore × Pc)
  | .out => none
  | .lockOwner => some (sem, if sem.ownerPid = p then .lockRecursive else .waitCount lockTimeout)
  | .lockRecursive => some (sem, if sem.recursiveCount ≠ 0 then .lockDeeper else .waitCount lockTimeout)
  | .lockDeeper => some ({ sem with recursiveCount := toInt (sem.recursiveCount + 1) }, .out)
  | .waitCount timeout => some (sem, if sem.count ≤ 0 then .waitQueued timeout else .waitSection timeout)
  -- `count` may have changed before `wait_internal` takes the lock of the queue
  | .waitQueued timeout => some ({ sem with waitqueue := WaitQueue.addToMe p timeout sem.waitqueue }, .asleep)
  -- leaving the queue has set `sleep_ticks` to 0
  | .asleep => if p ∈ sem.waitqueue.map Prod.fst then none else some (sem, .waitSection 0)
  | .waitSection timeout =>
    if sem.count > 0 then some ({ sem with count := sem.count - 1 }, .setOwner)
    -- `IPC_TIMEOUT`, and the loop of `lock` calls `wait` again
    else if timeout = 0 ∨ killed then some (sem, .waitCount lockTimeout)
    else some (sem, .waitCount timeout)
  | .setOwner => some ({ sem with ownerPid := p }, .setRecursive)
  | .setRecursive => some ({ sem with recursiveCount := 1 }, .out)
  | .unlockOwner => some (sem, if sem.ownerPid = p then .unlockRecursive else .clearOwner)
  | .unlockRecursive => some (sem, if sem.recursiveCount > 1 then .unlockShallower else .clearOwner)
  | .unlockShallower => some ({ sem with recursiveCount := toInt (sem.recursiveCount - 1) }, .out)
  | .clearOwner => some ({ sem with ownerPid := 0 }, .clearRecursive)
  | .clearRecursive => some ({ sem with recursiveCount := 0 }, .signalCount)
  | .signalCount => some ({ sem with count := sem.count + 1 }, .signalWakeup)
  | .signalWakeup => some ({ sem with waitqueue := (WaitQueue.wakeupPass sem.waitqueue).2 }, .out)

end JinyKernel.Mutex
