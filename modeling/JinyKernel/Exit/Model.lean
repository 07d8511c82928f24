import JinyKernel.Sched.Model

-- kernel/sched_task.cc: a task still has to run a list of frames, one a section; `none` is `BUG()`.

namespace JinyKernel.Exit

open Sched (State taskDead)

inductive Frame where
  | release
  | orphan
  | schedule
  | sweep
  | sleep
  | wait4 (noHang : Bool)
  | collect (child : Nat)
  | delete (task : Nat)
  | unlink (task : Nat)
  | children (task : Nat)
  | free (task : Nat)
  deriving DecidableEq

-- `stack` is the task on whose stack a processor runs: the last current one until `switch_to`.
structure Kernel where
  sched : State
  stack : Nat -> Nat
  code : Nat -> List Frame
  taskId : Nat -> Nat
  parentProcessPid : Nat -> Nat
  count : Nat -> Int
  deadTasks : Nat -> List Nat
  taskQueue : List Nat
  deadList : List Nat
  freed : List Nat

def maxDeadtasklistSize : Nat := 100

namespace Kernel

def setCode (k : Kernel) (p : Nat) (frames : List Frame) : Kernel :=
  { k with code := Function.update k.code p frames }

def push (k : Kernel) (p : Nat) (frames : List Frame) : Kernel := k.setCode p (frames ++ k.code p)

def setCount (k : Kernel) (p : Nat) (count : Int) : Kernel :=
  { k with count := Function.update k.count p count }

def setTask (k : Kernel) (p : Nat) (task : Sched.Task) : Kernel := { k with sched := k.sched.setTask p task }

end Kernel

variable (k : Kernel)

def releaseResources (childTask : Nat) : Kernel :=
  match k.taskQueue.find? fun task =>
    k.taskId task = k.parentProcessPid childTask ∧ (k.sched.tasks task).state ≠ taskDead with
  | some task =>
    { (k.setCount childTask (k.count childTask + 1)).setTask childTask
        { k.sched.tasks childTask with waiting := false, state := taskDead } with
      deadTasks := Function.update k.deadTasks task (k.deadTasks task ++ [childTask]) }
  | none => k.push childTask [.orphan]

def addToDeadlist (task : Nat) : Option Kernel :=
  if maxDeadtasklistSize ≤ k.deadList.length then none
  else some { k.setTask task { k.sched.tasks task with state := taskDead } with deadList := k.deadList ++ [task] }

def scRemoveDeadTasks (cpuid current : Nat) : Option Kernel :=
  if k.sched.idleTask cpuid = current then some k
  else
    match k.deadList.getLast? with
    | none => some k
    | some task =>
      if (k.sched.tasks task).state = taskDead then
        some ({ k with deadList := k.deadList.dropLast }.push current [.delete task, .sweep])
      else none

def scDeleteTask (current task : Nat) : Kernel :=
  let k := k.setCount task (k.count task - 1)
  if k.count task ≠ 0 then k else k.push current [.unlink task]

-- The three `list_del` of `sc_delete_task`.
def unlinkTask (task : Nat) : Kernel :=
  { k with
    sched := { k.sched.setTask task { k.sched.tasks task with queued := false, waiting := false } with
      runQueue := fun cpuid => (k.sched.runQueue cpuid).erase task }
    deadTasks := fun parent => (k.deadTasks parent).erase task
    taskQueue := k.taskQueue.erase task }

def deleteChild (current task : Nat) : Kernel :=
  match k.deadTasks task with
  | [] => k.push current [.free task]
  | child :: rest =>
    ({ k with deadTasks := Function.update k.deadTasks task rest }.setCount child (k.count child - 1)).push current
      [.delete child, .children task]

-- `SYS_wait4` looks at its list without the lock.
def sysWait4 (current : Nat) (noHang : Bool) : Kernel :=
  match k.deadTasks current with
  | [] => if noHang then k else k.push current [.sleep, .wait4 noHang]
  | child :: _ => k.push current [.collect child]

def collectChild (current child : Nat) : Kernel :=
  ({ k with deadTasks := fun parent => (k.deadTasks parent).erase child }.setCount child (k.count child - 1)).push current
    [.delete child]

def scSchedule (maxCpus : Nat) (k : Kernel) (cpuid current : Nat) : Option Kernel :=
  if (k.sched.tasks current).currentCpu ≠ cpuid then none
  else (Sched.schedule maxCpus k.sched cpuid).map fun sched => { k with sched := sched }

def scSleep (cpuid current : Nat) : Option Kernel :=
  (Sched.waitInternal k.sched cpuid).map fun sched => { k with sched := sched }.push current [.schedule, .sweep]

def runFrame (maxCpus : Nat) (k : Kernel) (cpuid current : Nat) : Frame -> Option Kernel
  | .release => some (releaseResources k current)
  | .orphan => addToDeadlist k current
  | .schedule => scSchedule maxCpus k cpuid current
  | .sweep => scRemoveDeadTasks k cpuid current
  | .sleep => scSleep k cpuid current
  | .wait4 noHang => some (sysWait4 k current noHang)
  | .collect child => some (collectChild k current child)
  | .delete task => some (scDeleteTask k current task)
  | .unlink task => some (deleteChild (unlinkTask k task) current task)
  | .children task => some (deleteChild k current task)
  | .free task => some { k with freed := task :: k.freed }

inductive Call where
  | exit
  | wait4 (noHang : Bool)
  | sleep
  | schedule
  deriving DecidableEq

def Call.frames : Call -> List Frame
  | .exit => [.release, .schedule, .sweep]
  | .wait4 noHang => [.wait4 noHang]
  | .sleep => [.sleep]
  | .schedule => [.schedule, .sweep]

inductive Act where
  | enter (call : Call)
  | interrupt
  | run
  | switchTo
  deriving DecidableEq

def act (maxCpus : Nat) (k : Kernel) (cpuid : Nat) : Act -> Option Kernel
  | .enter call => some (k.setCode (k.sched.current cpuid) call.frames)
  | .interrupt => some (k.push (k.sched.current cpuid) [.schedule, .sweep])
  | .run =>
    let current := k.sched.current cpuid
    match k.code current with
    | [] => some k
    | frame :: rest => runFrame maxCpus (k.setCode current rest) cpuid current frame
  | .switchTo => some { k with stack := Function.update k.stack cpuid (k.sched.current cpuid) }

end JinyKernel.Exit
