import Mathlib.Algebra.Order.BigOperators.Group.List
import Mathlib.Algebra.Order.Ring.Canonical
import Mathlib.Algebra.Order.Ring.Nat
import Mathlib.Data.Fintype.Order

namespace Radix

open List Option

abbrev Memory := Nat -> Nat -> Nat

inductive Slot where
  | empty
  | leaf
  | link (below : Nat)
  deriving DecidableEq

structure Format where
  width : Nat
  read : Nat -> Nat -> Nat -> Slot

structure Leaf where
  level : Nat
  position : Nat
  entry : Nat
  deriving DecidableEq

variable (format : Format)

def leafAt (mem : Memory) (path : Nat -> Nat) : Nat -> Nat -> Option (Nat × Nat)
  | 0, _ => none
  | level + 1, table =>
    match format.read (level + 1) (path (level + 1)) (mem table (path (level + 1))) with
    | .empty => none
    | .leaf => some (level + 1, mem table (path (level + 1)))
    | .link below => leafAt mem path level below

def tables (mem : Memory) : Nat -> Nat -> List Nat
  | 0, _ => []
  | level + 1, table => table :: (List.range format.width).flatMap fun index =>
    match format.read (level + 1) index (mem table index) with
    | .link below => tables mem level below
    | _ => []

def leaves (mem : Memory) : Nat -> Nat -> Nat -> List Leaf
  | 0, _, _ => []
  | level + 1, table, position => (List.range format.width).flatMap fun index =>
    match format.read (level + 1) index (mem table index) with
    | .empty => []
    | .leaf => [{ level := level + 1, position := position * format.width + index, entry := mem table index }]
    | .link below => leaves mem level below (position * format.width + index)

def Every (holds : Nat -> Nat -> Nat -> Prop) (mem : Memory) : Nat -> Nat -> Prop
  | 0, _ => True
  | level + 1, table => ∀ index < format.width, holds (level + 1) index (mem table index) ∧
      ∀ below, format.read (level + 1) index (mem table index) = .link below -> Every holds mem level below

def Reaches (pages : Nat -> Nat -> List Nat) (mem : Memory) : Nat -> Nat -> Nat -> Prop
  | 0, _, _ => False
  | level + 1, table, frame => frame = table ∨ ∃ index < format.width,
      match format.read (level + 1) index (mem table index) with
      | .empty => False
      | .leaf => frame ∈ pages (level + 1) (mem table index)
      | .link below => Reaches pages mem level below frame

instance decidableEvery (holds : Nat -> Nat -> Nat -> Prop) [∀ level index entry, Decidable (holds level index entry)]
    (mem : Memory) : (level table : Nat) -> Decidable (Every format holds mem level table)
  | 0, _ => isTrue trivial
  | level + 1, table =>
    have (index : Nat) : Decidable (∀ below, format.read (level + 1) index (mem table index) = .link below ->
        Every format holds mem level below) :=
      match format.read (level + 1) index (mem table index) with
      | .empty => isTrue nofun
      | .leaf => isTrue nofun
      | .link below => @decidable_of_iff _ (Every format holds mem level below) (by simp)
          (decidableEvery holds mem level below)
    Nat.decidableBallLT _ _

instance decidableReaches (pages : Nat -> Nat -> List Nat) (mem : Memory) :
    (level table frame : Nat) -> Decidable (Reaches format pages mem level table frame)
  | 0, _, _ => isFalse id
  | level + 1, table, frame =>
    have (index : Nat) : Decidable (match format.read (level + 1) index (mem table index) with
        | .empty => False
        | .leaf => frame ∈ pages (level + 1) (mem table index)
        | .link below => Reaches format pages mem level below frame) :=
      match format.read (level + 1) index (mem table index) with
      | .empty => isFalse id
      | .leaf => inferInstance
      | .link below => decidableReaches pages mem level below frame
    inferInstanceAs (Decidable (frame = table ∨ ∃ index < format.width, _))

variable (mem : Memory)

def tablesBelow (level table index : Nat) : List Nat :=
  match format.read (level + 1) index (mem table index) with
  | .link below => tables format mem level below
  | _ => []

def leavesBelow (level table position index : Nat) : List Leaf :=
  match format.read (level + 1) index (mem table index) with
  | .empty => []
  | .leaf => [{ level := level + 1, position := position * format.width + index, entry := mem table index }]
  | .link below => leaves format mem level below (position * format.width + index)

def leafBelow (path : Nat -> Nat) (level table index : Nat) : Option (Nat × Nat) :=
  match format.read (level + 1) index (mem table index) with
  | .empty => none
  | .leaf => some (level + 1, mem table index)
  | .link below => leafAt format mem path level below

theorem leafAt_succ (path : Nat -> Nat) (level table : Nat) :
    leafAt format mem path (level + 1) table = leafBelow format mem path level table (path (level + 1)) := rfl

theorem tables_succ (level table : Nat) : tables format mem (level + 1) table =
      table :: (List.range format.width).flatMap (tablesBelow format mem level table) := rfl

theorem leaves_succ (level table position : Nat) : leaves format mem (level + 1) table position =
      (List.range format.width).flatMap (leavesBelow format mem level table position) := rfl

variable {format} {mem other : Memory} {level table index below frame found entry : Nat} {path : Nat -> Nat}

theorem tablesBelow_link (link : format.read (level + 1) index (mem table index) = .link below) :
    tablesBelow format mem level table index = tables format mem level below := by
  simp [tablesBelow, link]

theorem table_mem (mem : Memory) (level table : Nat) : table ∈ tables format mem (level + 1) table :=
  mem_cons_self

theorem tables_of_link (inside : index < format.width)
    (link : format.read (level + 1) index (mem table index) = .link below)
    (member : frame ∈ tables format mem level below) : frame ∈ tables format mem (level + 1) table := by
  rw [← tablesBelow_link link] at member
  exact mem_cons_of_mem _ (mem_flatMap.2 ⟨index, mem_range.2 inside, member⟩)

theorem leafAt_congr (inside : ∀ level, path level < format.width)
    (same : ∀ frame ∈ tables format mem level table, other frame = mem frame) :
    leafAt format other path level table = leafAt format mem path level table := by
  induction level generalizing table with
  | zero => rfl
  | succ level ih =>
    simp only [leafAt, same table (table_mem ..)]
    cases link : format.read (level + 1) (path (level + 1)) (mem table (path (level + 1))) with
    | empty | leaf => rfl
    | link below => exact ih fun frame member => same frame (tables_of_link (inside _) link member)

theorem leafAt_induct {motive : Nat -> Nat -> Prop}
    (here : ∀ level table, format.read (level + 1) (path (level + 1)) (mem table (path (level + 1))) = .leaf ->
      found = level + 1 -> entry = mem table (path (level + 1)) -> motive (level + 1) table)
    (deeper : ∀ level table below,
      format.read (level + 1) (path (level + 1)) (mem table (path (level + 1))) = .link below ->
      motive level below -> motive (level + 1) table)
    (leaf : leafAt format mem path level table = some (found, entry)) : motive level table := by
  induction level generalizing table with
  | zero => cases leaf
  | succ level ih =>
    simp only [leafAt] at leaf
    split at leaf
    next => cases leaf
    next read =>
      cases leaf
      exact here level table read rfl rfl
    next below read => exact deeper level table below read (ih leaf)

theorem leafAt_level (leaf : leafAt format mem path level table = some (found, entry)) : 1 ≤ found ∧ found ≤ level :=
  leafAt_induct (motive := fun level _ => 1 ≤ found ∧ found ≤ level) (fun _ _ _ _ _ => by omega)
    (fun _ _ _ _ _ => by omega) leaf

theorem leafAt_blank (inside : ∀ level, path level < format.width)
    (blank : ∀ level, ∀ index < format.width, format.read level index (mem table index) = .empty) :
    leafAt format mem path level table = none := by
  cases level with
  | zero => rfl
  | succ level => simp [leafAt, blank _ _ (inside (level + 1))]

theorem tables_congr (same : ∀ frame ∈ tables format mem level table, other frame = mem frame) :
    tables format other level table = tables format mem level table := by
  induction level generalizing table with
  | zero => rfl
  | succ level ih =>
    rw [tables_succ, tables_succ]
    congr 1
    refine flatMap_congr fun index member => ?_
    have inside := mem_range.1 member
    simp only [tablesBelow, same table (table_mem ..)]
    cases link : format.read (level + 1) index (mem table index) with
    | empty | leaf => rfl
    | link below => exact ih fun frame member => same frame (tables_of_link inside link member)

theorem leaves_congr (position : Nat) (same : ∀ frame ∈ tables format mem level table, other frame = mem frame) :
    leaves format other level table position = leaves format mem level table position := by
  induction level generalizing table position with
  | zero => rfl
  | succ level ih =>
    rw [leaves_succ, leaves_succ]
    refine flatMap_congr fun index member => ?_
    have inside := mem_range.1 member
    simp only [leavesBelow, same table (table_mem ..)]
    cases link : format.read (level + 1) index (mem table index) with
    | empty | leaf => rfl
    | link below => exact ih _ fun frame member => same frame (tables_of_link inside link member)

theorem leafAt_mem (inside : ∀ level, path level < format.width) (position : Nat)
    (leaf : leafAt format mem path level table = some (found, entry)) :
    ∃ place, ⟨found, place, entry⟩ ∈ leaves format mem level table position := by
  refine leafAt_induct (motive := fun level table => ∀ position, ∃ place,
    ⟨found, place, entry⟩ ∈ leaves format mem level table position) ?_ ?_ leaf position
  · rintro level table read rfl rfl position
    exact ⟨_, mem_flatMap.2 ⟨path (level + 1), mem_range.2 (inside _), by simp only [read, mem_singleton]; rfl⟩⟩
  · intro level table below read deep position
    obtain ⟨place, member⟩ := deep (position * format.width + path (level + 1))
    exact ⟨place, mem_flatMap.2 ⟨path (level + 1), mem_range.2 (inside _), by simpa only [read] using member⟩⟩

section

variable {mem other : Memory} {level table index : Nat} (word : other table index = mem table index)
  (same : ∀ frame ∈ tablesBelow format mem level table index, other frame = mem frame)

include word same

theorem tablesBelow_congr :
    tablesBelow format other level table index = tablesBelow format mem level table index := by
  simp only [tablesBelow, word] at same ⊢
  cases read : format.read (level + 1) index (mem table index) with
  | empty | leaf => rfl
  | link below => exact tables_congr (by simpa only [read] using same)

theorem leafBelow_congr (inside : ∀ level, path level < format.width) :
    leafBelow format other path level table index = leafBelow format mem path level table index := by
  simp only [leafBelow, tablesBelow, word] at same ⊢
  cases read : format.read (level + 1) index (mem table index) with
  | empty | leaf => rfl
  | link below => exact leafAt_congr inside (by simpa only [read] using same)

theorem leavesBelow_congr (position : Nat) :
    leavesBelow format other level table position index = leavesBelow format mem level table position index := by
  simp only [leavesBelow, tablesBelow, word] at same ⊢
  cases read : format.read (level + 1) index (mem table index) with
  | empty | leaf => rfl
  | link below => exact leaves_congr _ (by simpa only [read] using same)

end

variable {pages : Nat -> Nat -> List Nat} {mem : Memory} {level table : Nat}

theorem reaches_table : Reaches format pages mem (level + 1) table table := .inl rfl

theorem reaches_leaf (inside : index < format.width) (leaf : format.read (level + 1) index (mem table index) = .leaf)
    (page : frame ∈ pages (level + 1) (mem table index)) : Reaches format pages mem (level + 1) table frame :=
  .inr ⟨index, inside, by simpa only [leaf] using page⟩

theorem reaches_link (inside : index < format.width)
    (link : format.read (level + 1) index (mem table index) = .link below)
    (reached : Reaches format pages mem level below frame) : Reaches format pages mem (level + 1) table frame :=
  .inr ⟨index, inside, by simpa only [link] using reached⟩

theorem reaches_of_leafAt (inside : ∀ level, path level < format.width)
    (leaf : leafAt format mem path level table = some (found, entry)) (page : frame ∈ pages found entry) :
    Reaches format pages mem level table frame := by
  refine leafAt_induct (motive := fun level table => Reaches format pages mem level table frame) ?_ ?_ leaf
  · rintro level table read rfl rfl
    exact reaches_leaf (inside _) read page
  · intro level table below read deep
    exact reaches_link (inside _) read deep

theorem reaches_finite (format : Format) (pages : Nat -> Nat -> List Nat) (mem : Memory) (level table : Nat) :
    {frame | Reaches format pages mem level table frame}.Finite := by
  induction level generalizing table with
  | zero => exact Set.finite_empty
  | succ level ih =>
    refine (Set.finite_singleton table).union ?_
    have each (index : Nat) : {frame | match format.read (level + 1) index (mem table index) with
        | .empty => False
        | .leaf => frame ∈ pages (level + 1) (mem table index)
        | .link below => Reaches format pages mem level below frame}.Finite := by
      cases format.read (level + 1) index (mem table index) with
      | empty => exact Set.finite_empty
      | leaf => exact List.finite_toSet _
      | link below => exact ih below
    refine ((Set.finite_lt_nat format.width).biUnion fun index _ => each index).subset ?_
    rintro frame ⟨index, within, reached⟩
    exact Set.mem_biUnion within reached

end Radix
