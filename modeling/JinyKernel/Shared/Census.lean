import Mathlib.Algebra.BigOperators.Group.Finset.Piecewise
import Mathlib.Algebra.Order.BigOperators.Group.Finset

namespace Census

open Finset Function

variable {Key : Type} [DecidableEq Key] {size : Nat} {refers : Nat -> Option Key} {key : Key}

def census (size : Nat) (refers : Nat -> Option Key) (key : Key) : Nat :=
  ∑ i ∈ range size, if refers i = some key then 1 else 0

theorem census_update (refers : Nat -> Option Key) (key : Key) {i : Nat} (within : i < size) (target : Option Key) :
    census size (update refers i target) key + (if refers i = some key then 1 else 0) =
      census size refers key + if target = some key then 1 else 0 := by
  have place := mem_range.2 within
  have rest : ∀ j ∈ (range size).erase i,
      (if update refers i target j = some key then 1 else 0) = if refers j = some key then 1 else 0 := by
    intro j among
    rw [update_of_ne (ne_of_mem_erase among)]
  rw [census, census, ← add_sum_erase _ _ place, ← add_sum_erase _ _ place, sum_congr rfl rest,
    update_self]
  omega

theorem census_pos {i : Nat} (within : i < size) (there : refers i = some key) : 0 < census size refers key := by
  have one := single_le_sum (f := fun i => if refers i = some key then 1 else 0)
    (fun _ _ => Nat.zero_le _) (mem_range.2 within)
  simp only [there, if_true] at one
  exact one

theorem census_two {i j : Nat} (withinI : i < size) (withinJ : j < size) (apart : i ≠ j)
    (thereI : refers i = some key) (thereJ : refers j = some key) : 2 ≤ census size refers key := by
  -- without the reference at `i` the one at `j` is still counted
  have fewer := census_update refers key withinI none
  have left : 0 < census size (update refers i none) key :=
    census_pos withinJ ((update_of_ne apart.symm ..).trans thereJ)
  rw [if_pos thereI, if_neg (by simp)] at fewer
  omega

theorem census_eq_zero (nowhere : ∀ i < size, refers i ≠ some key) : census size refers key = 0 := by
  apply sum_eq_zero
  intro i among
  exact if_neg (nowhere i (mem_range.1 among))

theorem census_congr {others : Nat -> Option Key} (same : ∀ i < size, refers i = others i) :
    census size refers key = census size others key := by
  apply sum_congr rfl
  intro i among
  rw [same i (mem_range.1 among)]

theorem census_succ (size : Nat) (refers : Nat -> Option Key) (key : Key) :
    census (size + 1) refers key = census size refers key + if refers size = some key then 1 else 0 :=
  sum_range_succ ..

theorem census_remove {others : Nat -> Option Key} {i : Nat} (within : i ≤ size)
    (moved : ∀ j < size, others j = if j = i then refers size else refers j) :
    census size others key + (if refers i = some key then 1 else 0) = census (size + 1) refers key := by
  rw [census_succ]
  by_cases last : i = size
  · rw [last]
    congr 1
    apply census_congr
    intro j below
    rw [moved j below, if_neg (by omega)]
  have shifted : census size others key = census size (update refers i (refers size)) key := by
    apply census_congr
    intro j below
    rw [moved j below, update_apply]
  rw [shifted]
  exact census_update refers key (by omega) (refers size)

end Census
