import Mathlib.Logic.Function.Basic

-- kernel/sched_task.cc: tasks and processors are numbers; `none` is `BUG()` or an access behind
-- `g_cpu_state`.

namespace JinyKernel.Sched

def noCpu : Nat := 0xffff

-- `state` is a set of bits, and 0 is a runnable task
def taskRunning : Nat := 0
def taskInterruptible : Nat := 0x1
def taskDead : Nat := 0x10
def taskNonpreemptive : Nat := 0x20

-- `queued` and `waiting`: `run_queue` and `wait_queue` are in a list.
structure Task where
  state : Nat
  allocatedCpu : Nat
  currentCpu : Nat
  stickToCpu : Nat
  queued : Bool
  waiting : Bool

-- `schedLock`: the next `_schedule` is to release `g_global_lock`.
structure State where
  tasks : Nat -> Task
  idleTask : Nat -> Nat
  current : Nat -> Nat
  runQueue : Nat -> List Nat
  runQueueLength : Nat -> Int
  active : Nat -> Bool
  schedLock : Nat -> Bool

def State.setTask (state : State) (p : Nat) (task : Task) : State :=
  { state with tasks := Function.update state.tasks p task }

variable (maxCpus : Nat) (state : State)

def chooseCpu (myCpuid p : Nat) (argCpuid : Int) : Option (Nat × State) :=
  let task := state.tasks p
  if argCpuid = -1 then
    if maxCpus ≤ task.allocatedCpu then none
    else if state.active task.allocatedCpu then some (task.allocatedCpu, state)
    else some (0, state.setTask p { task with allocatedCpu := 0 })
  else if argCpuid = -99 then some (myCpuid, state)
  else none

def State.enqueue (cpuid p : Nat) : State :=
  { state.setTask p { state.tasks p with queued := true, state := taskRunning } with
    runQueue := Function.update state.runQueue cpuid (state.runQueue cpuid ++ [p])
    runQueueLength := Function.update state.runQueueLength cpuid (state.runQueueLength cpuid + 1) }

def addToRunqueue (myCpuid p : Nat) (argCpuid : Int) : Option (Int × State) := do
  let (cpuid, state) ← chooseCpu maxCpus state myCpuid p argCpuid
  guard ((state.tasks p).queued = false)
  guard ((state.tasks p).currentCpu = noCpu)
  let state := state.enqueue cpuid p
  some (state.runQueueLength cpuid - 1, state)

def State.unlink (cpuid p : Nat) : State :=
  { state.setTask p { state.tasks p with queued := false } with
    runQueue := fun cpu => (state.runQueue cpu).erase p
    runQueueLength := Function.update state.runQueueLength cpuid (state.runQueueLength cpuid - 1) }

def delFromRunqueue (myCpuid : Nat) (p : Option Nat) (argCpuid : Int) : Option (Option Nat × State) :=
  let cpuid := if argCpuid = -99 then (myCpuid : Int) else argCpuid
  if 0 ≤ cpuid ∧ cpuid < maxCpus then
    if state.runQueueLength cpuid.toNat = 0 then some (none, state)
    else
      match p.or (state.runQueue cpuid.toNat).head? with
      | some p => some (some p, state.unlink cpuid.toNat p)
      | none => some (none, state)
  else none

def scTaskAssignToCpu (myCpuid task : Nat) : Option (Bool × State) := do
  let (_, state) ← addToRunqueue maxCpus state myCpuid task (-1)
  some ((state.tasks task).allocatedCpu = myCpuid, state)

variable (cpuid : Nat)

-- A task bound to another processor goes back to the queue it came from.
def dismiss : Option Nat -> Option (Option Nat × State)
  | none => some (none, state)
  | some next =>
    let task := state.tasks next
    if task.stickToCpu ≠ noCpu ∧ task.stickToCpu ≠ cpuid then do
      let (_, state) ← addToRunqueue maxCpus (state.setTask next { task with allocatedCpu := task.stickToCpu })
        cpuid next (-99)
      some (none, state)
    else some (some next, state)

def pickNext : Option (Option Nat × State) :=
  if cpuid ≠ 0 ∧ state.active cpuid = false then some (some (state.idleTask cpuid), state)
  else do
    let (next, state) ← delFromRunqueue maxCpus state cpuid none (-99)
    dismiss maxCpus state cpuid next

def putBack (cpuid prev : Nat) : Option State :=
  let task := state.tasks prev
  if task.state = taskDead then some state
  else if prev ≠ state.idleTask cpuid ∧ task.state = taskRunning then do
    guard (task.queued = false)
    let (_, state) ← addToRunqueue maxCpus (state.setTask prev { task with currentCpu := noCpu }) cpuid prev (-99)
    some state
  else some state

def State.switchTo (cpuid prev next : Nat) : State :=
  let state := state.setTask next { state.tasks next with currentCpu := cpuid }
  let state := state.setTask prev { state.tasks prev with currentCpu := noCpu }
  { state with
    current := Function.update state.current cpuid next
    schedLock := Function.update state.schedLock cpuid false }

def schedule : Option State :=
  let prev := state.current cpuid
  if (state.tasks prev).state &&& taskNonpreemptive ≠ 0 then some state
  else do
    let (found, state) ← pickNext maxCpus state cpuid
    let next := found.getD (if (state.tasks prev).state = taskRunning then prev else state.idleTask cpuid)
    if prev = next then
      if (state.tasks prev).state = taskRunning then some state else none
    else do
      let state ← putBack maxCpus state cpuid prev
      some (state.switchTo cpuid prev next)

def waitInternal : Option State :=
  let current := state.current cpuid
  if (state.tasks current).state = taskNonpreemptive then none
  else some { state.setTask current { state.tasks current with state := taskInterruptible, waiting := true } with
    schedLock := Function.update state.schedLock cpuid true }

def wakeup (myCpuid task : Nat) : Option State :=
  if (state.tasks task).queued then none
  else do
    let (_, state) ← scTaskAssignToCpu maxCpus (state.setTask task { state.tasks task with waiting := false }) myCpuid
      task
    some state

end JinyKernel.Sched
