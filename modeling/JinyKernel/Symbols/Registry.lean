import JinyKernel.Util.Strings
import Mathlib.Data.Nat.Digits.Defs

-- symbol_table.cc: an object is its address, the list of a class its objects from the head on.

namespace JinyKernel.Symbols

open Function List Run Util

structure Registry where
  list : Nat -> List Nat
  count : Nat -> Int
  jclassId : Nat -> Nat

def vtable (name : List UInt8) : List UInt8 :=
  [95, 90, 84, 86] ++ (Nat.digits 10 name.length).reverse.map (48 + ·.toUInt8) ++ name

variable (classes : List (List UInt8))

def classFound (name : List UInt8) : Option Nat :=
  classes.findIdx? fun symbol => (utStrstr (symbol ++ [0]) (name ++ [0])).join.isSome

-- `operator new` has cleared the object.
def utObjAdd (s : Registry) (obj : Nat) (name : List UInt8) : Registry :=
  match classFound classes name with
  | none => { s with jclassId := update s.jclassId obj 0 }
  | some i =>
    { list := update s.list i (obj :: s.list i)
      count := update s.count i (s.count i + 1)
      jclassId := update s.jclassId obj i }

-- `prev_obj` is the head of the list at the first object and at the second.
def unlink (obj : Nat) : List Nat -> List Nat
  | a :: b :: rest => if a = obj then b :: rest else if b = obj then rest else a :: b :: rest.erase obj
  | short => short.erase obj

def utObjFree (s : Registry) (obj : Nat) : Registry :=
  let i := s.jclassId obj
  if i < classes.length then
    { s with list := update s.list i (unlink obj (s.list i)), count := update s.count i (s.count i - 1) }
  else s

inductive Call where
  | add (obj : Nat) (name : List UInt8)
  | free (obj : Nat)

abbrev Objects := Registry × (Nat -> Option (List UInt8))

def noObjects : Objects := (⟨fun _ => [], fun _ => 0, fun _ => 0⟩, fun _ => none)

def step (entry : Objects) : Call -> Option Objects
  | .add obj name => some (utObjAdd classes entry.1 obj name, update entry.2 obj (some name))
  | .free obj => some (utObjFree classes entry.1 obj, update entry.2 obj none)

def ownClass (name : List UInt8) : Option Nat := classes.findIdx? (· = vtable name)

-- An object is added and freed once, under a name that finds its class first, and not as the second of a
-- list.
def Allowed (entry : Objects) : Call -> Prop
  | .add obj name => entry.2 obj = none ∧ ∃ i, ownClass classes name = some i ∧ classFound classes name = some i
  | .free obj => (entry.2 obj).isSome ∧ (entry.1.list (entry.1.jclassId obj))[1]? ≠ some obj

structure Kept (entry : Objects) : Prop where
  once : ∀ i, (entry.1.list i).Nodup
  count : ∀ i, entry.1.count i = (entry.1.list i).length
  listed : ∀ i obj, obj ∈ entry.1.list i ↔ ∃ name, entry.2 obj = some name ∧ ownClass classes name = some i
  named : ∀ obj name, entry.2 obj = some name -> ownClass classes name = some (entry.1.jclassId obj)

theorem unlink_eq {obj : Nat} {list : List Nat} (other : list[1]? ≠ some obj) : unlink obj list = list.erase obj := by
  fun_cases unlink obj list with
  | case1 b rest => simp
  | case2 a rest => simp at other
  | case3 a b rest first second => simp [first, second]
  | case4 => rfl

variable {classes} {entry next : Objects} {call : Call}

theorem Kept.step (kept : Kept classes entry) (may : Allowed classes entry call)
    (moved : step classes entry call = some next) : Kept classes next := by
  obtain ⟨once, count, listed, named⟩ := kept
  cases call with
  | add obj name =>
    obtain ⟨fresh, i, own, found⟩ := may
    cases moved
    have absent : obj ∉ entry.1.list i := by simp [listed, fresh]
    simp only [utObjAdd, found]
    constructor <;> intro k <;> simp only [update_apply] <;> grind
  | free obj =>
    obtain ⟨live, other⟩ := may
    cases moved
    obtain ⟨name, alive⟩ := Option.isSome_iff_exists.1 live
    have own := named obj name alive
    have member := (listed _ obj).2 ⟨name, alive, own⟩
    have inside := (findIdx?_eq_some_iff_findIdx_eq.1 own).1
    simp only [utObjFree, if_pos inside, unlink_eq other]
    constructor <;> intro k <;> simp only [update_apply]
    · grind [Nodup.erase]
    · grind [length_erase_of_mem]
    · grind [Nodup.mem_erase_iff]
    · grind

theorem registry_kept {s : Registry} {live : Nat -> Option (List UInt8)}
    (reached : Reachable (· = noObjects) (step classes) (Allowed classes) (s, live)) : Kept classes (s, live) := by
  refine reached.invariant ?_ fun _ _ _ kept may moved => kept.step may moved
  rintro _ rfl
  exact ⟨fun _ => nodup_nil, fun _ => rfl, by simp [noObjects], by simp [noObjects]⟩

instance (classes : List (List UInt8)) (entry : Objects) : (call : Call) -> Decidable (Allowed classes entry call)
  | .add obj name => inferInstanceAs (Decidable (entry.2 obj = none ∧
      ∃ i ∈ ownClass classes name, classFound classes name = some i))
  | .free obj => inferInstanceAs (Decidable ((entry.2 obj).isSome ∧ _ ≠ some obj))

theorem registry_kept_two : ∃ s live, Kept [vtable [97], vtable [98]] (s, live) ∧ s.list 0 = [7] ∧ s.list 1 = [9, 8] := by
  have outcome : ([Call.add 6 [97], .add 8 [98], .add 9 [98], .free 6, .add 7 [97]].foldlM (fun entry call =>
      if decide (Allowed [vtable [97], vtable [98]] entry call) then step [vtable [97], vtable [98]] entry call else none)
      noObjects).any (fun entry => entry.1.list 0 = [7] ∧ entry.1.list 1 = [9, 8]) = true := by decide +kernel
  obtain ⟨⟨s, live⟩, ran, lists⟩ := holds_of_any outcome
  exact ⟨s, live, registry_kept (.checked (fun _ _ _ => of_decide_eq_true) (.start rfl) ran), lists⟩

theorem registry_wrong : ([.add 7 [97], .add 8 [97], .free 7].foldlM (step [vtable [97]]) noObjects).any
      (fun entry => entry.1.list 0 = [] ∧ entry.2 8 = some [97]) = true ∧
    (step [vtable [98, 97], vtable [97]] noObjects (.add 7 [97])).any
      (fun entry => entry.1.list 0 = [7] ∧ ownClass [vtable [98, 97], vtable [97]] [97] = some 1) = true := by
  decide +kernel

end JinyKernel.Symbols
