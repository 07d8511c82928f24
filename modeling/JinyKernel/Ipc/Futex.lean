import JinyKernel.Machine

-- The futex table of kernel/ipc.cc; `none` is an access outside `futex_list`.

namespace JinyKernel.Ipc

def maxFutexs : Nat := 1023

structure Futex where
  name : Nat
  mm : Nat
  uaddr : Nat
  deriving DecidableEq

abbrev Table := Nat -> Option Futex

-- The `int` keeps its sign.
def startIndex (mm uaddr : Nat) : Int := (toInt (wrap (uaddr + mm))).tmod maxFutexs

def probe (table : Table) (test : Option Futex -> Bool) : Nat -> Int -> Option (Option Nat)
  | 0, _ => some none
  | left + 1, id =>
    if 0 ≤ id ∧ id < maxFutexs then
      if test (table id.toNat) then some (some id.toNat)
      else probe table test left ((id + 1).tmod maxFutexs)
    else none

def Futex.belongs (mm uaddr : Nat) (futex : Futex) : Bool := futex.mm = mm ∧ futex.uaddr = uaddr

def findFutex (table : Table) (mm uaddr : Nat) : Option (Option Nat) :=
  probe table (fun slot => slot.any (Futex.belongs mm uaddr)) maxFutexs (startIndex mm uaddr)

structure State where
  table : Table
  created : Nat

variable (state : State)

def State.fill (mm uaddr : Nat) : Option Nat -> Option Futex × State
  | some id =>
    let futex : Futex := ⟨state.created, mm, uaddr⟩
    (some futex, ⟨Function.update state.table id (some futex), state.created + 1⟩)
  | none => (none, state)

def addFutex (mm uaddr : Nat) : Option (Option Futex × State) := do
  let free ← probe state.table Option.isNone maxFutexs (startIndex mm uaddr)
  some (state.fill mm uaddr free)

def State.pick (otherwise : Option (Option Futex × State)) : Option Nat -> Option (Option Futex × State)
  | some id => some (state.table id, state)
  | none => otherwise

-- The table is searched without the lock first, and again with it.
def getFutex (mm uaddr : Nat) : Option (Option Futex × State) := do
  let i ← findFutex state.table mm uaddr
  state.pick (do
    let k ← findFutex state.table mm uaddr
    state.pick (addFutex state mm uaddr) k) i

def destroyFutex (mm : Nat) : State :=
  { state with table := fun i => if i < maxFutexs then (state.table i).filter (·.mm ≠ mm) else state.table i }

end JinyKernel.Ipc
