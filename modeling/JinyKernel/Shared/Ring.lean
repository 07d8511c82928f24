import Mathlib.Data.List.Basic
import Mathlib.Data.Nat.ModEq

namespace Ring

open Function List

variable {Item : Type} {size start : Nat} {slots : Nat -> Option Item} {items : List Item}

structure Holds (size : Nat) (slots : Nat -> Option Item) (start : Nat) (items : List Item) : Prop where
  inside : start < size
  fits : items.length ≤ size
  placed : ∀ k < size, slots ((start + k) % size) = items[k]?

variable {size slot k : Nat} {item : Item}

theorem exists_offset {start : Nat} (inside : start < size) (valid : slot < size) :
    ∃ k < size, (start + k) % size = slot := by
  by_cases behind : start ≤ slot
  · refine ⟨slot - start, by omega, ?_⟩
    rw [Nat.add_sub_cancel' behind, Nat.mod_eq_of_lt valid]
  · refine ⟨slot + size - start, by omega, ?_⟩
    have whole : start + (slot + size - start) = slot + size := by omega
    rw [whole, Nat.add_mod_right, Nat.mod_eq_of_lt valid]

def tail (size start : Nat) (items : List Item) : Nat := (start + items.length) % size

theorem Holds.start_slot (holds : Holds size slots start items) : slots start = items.head? := by
  have first := holds.placed 0 (Nat.zero_lt_of_lt holds.inside)
  rwa [Nat.add_zero, Nat.mod_eq_of_lt holds.inside, ← head?_eq_getElem?] at first

theorem Holds.vacant (holds : Holds size slots start []) (valid : slot < size) : slots slot = none := by
  obtain ⟨k, within, rfl⟩ := exists_offset holds.inside valid
  exact holds.placed k within

theorem Holds.tail_free (holds : Holds size slots start items) :
    slots (tail size start items) = none ↔ items.length < size := by
  constructor
  · intro free
    by_contra full
    -- a full ring has come round to its first item
    have whole : items.length = size := Nat.le_antisymm holds.fits (not_lt.1 full)
    have round : tail size start items = start := by
      rw [tail, whole, Nat.add_mod_right, Nat.mod_eq_of_lt holds.inside]
    rw [round, holds.start_slot, head?_eq_none_iff] at free
    have inside := holds.inside
    rw [free, length_nil] at whole
    omega
  · intro room
    rw [tail, holds.placed _ room]
    exact getElem?_eq_none (le_refl _)

theorem slot_ne {j : Nat} (left : j < size) (right : k < size) (apart : j ≠ k) :
    (start + j) % size ≠ (start + k) % size := by
  intro same
  have moved := Nat.ModEq.add_left_cancel' start same
  rw [Nat.ModEq, Nat.mod_eq_of_lt left, Nat.mod_eq_of_lt right] at moved
  exact apart moved

theorem slot_ne_start (inside : start < size) (ahead : 0 < k) (within : k < size) : (start + k) % size ≠ start := by
  have apart : (start + k) % size ≠ (start + 0) % size :=
    slot_ne within (Nat.zero_lt_of_lt within) (Nat.ne_of_gt ahead)
  intro same
  exact apart (by rw [same, Nat.add_zero, Nat.mod_eq_of_lt inside])

theorem Holds.push (holds : Holds size slots start items) (room : items.length < size) (item : Item) :
    Holds size (update slots (tail size start items) (some item)) start (items ++ [item]) where
  inside := holds.inside
  fits := by
    rw [length_append, length_singleton]
    exact room
  placed k within := by
    by_cases last : k = items.length
    · rw [last, ← tail, update_self, getElem?_concat_length]
    rw [tail, update_of_ne (slot_ne within room last), holds.placed k within]
    by_cases before : k < items.length
    · rw [getElem?_append_left before]
    · rw [getElem?_eq_none (not_lt.1 before), getElem?_eq_none]
      rw [length_append, length_singleton]
      omega

theorem Holds.pop (holds : Holds size slots start (item :: items)) :
    Holds size (update slots start none) ((start + 1) % size) items where
  inside := Nat.mod_lt _ (Nat.zero_lt_of_lt holds.inside)
  fits := Nat.le_of_succ_le holds.fits
  placed k within := by
    have fits := holds.fits
    rw [length_cons] at fits
    rw [Nat.mod_add_mod, Nat.add_assoc]
    by_cases last : 1 + k = size
    · -- the slot just emptied is the last of the new round
      rw [last, Nat.add_mod_right, Nat.mod_eq_of_lt holds.inside, update_self,
        getElem?_eq_none]
      omega
    · have ahead : (start + (1 + k)) % size ≠ start := slot_ne_start holds.inside (by omega) (by omega)
      rw [update_of_ne ahead, holds.placed (1 + k) (by omega), Nat.add_comm 1 k, getElem?_cons_succ]

theorem tail_pop (item : Item) :
    tail size ((start + 1) % size) items = tail size start (item :: items) := by
  rw [tail, tail, Nat.mod_add_mod, length_cons, Nat.add_assoc, Nat.add_comm 1]

theorem tail_push (item : Item) :
    tail size start (items ++ [item]) = (tail size start items + 1) % size := by
  rw [tail, tail, Nat.mod_add_mod, length_append, length_singleton, Nat.add_assoc]

theorem Holds.replace (holds : Holds size slots start (item :: items)) (other : Item) :
    Holds size (update slots start (some other)) start (other :: items) where
  __ := holds
  placed k within := by
    cases k with
    | zero => rw [Nat.add_zero, Nat.mod_eq_of_lt holds.inside, update_self, getElem?_cons_zero]
    | succ k =>
      have ahead : (start + (k + 1)) % size ≠ start := slot_ne_start holds.inside (Nat.succ_pos k) within
      rw [update_of_ne ahead, holds.placed (k + 1) within, getElem?_cons_succ, getElem?_cons_succ]

def contents (size : Nat) (slots : Nat -> Option Item) (start : Nat) : List Item :=
  (List.range size).filterMap fun k => slots ((start + k) % size)

theorem filterMap_range_getElem? (items : List Item) (fits : items.length ≤ size) :
    (List.range size).filterMap (fun k => items[k]?) = items := by
  induction items generalizing size with
  | nil => simp
  | cons item rest ih =>
    cases size with
    | zero => simp at fits
    | succ size =>
      rw [length_cons, Nat.succ_le_succ_iff] at fits
      simpa [range_succ_eq_map, filterMap_map, comp_def] using ih fits

theorem Holds.contents (holds : Holds size slots start items) : contents size slots start = items := by
  rw [Ring.contents, filterMap_congr fun k among => holds.placed k (mem_range.1 among)]
  exact filterMap_range_getElem? items holds.fits

theorem next_index {i : Nat} (inside : i < size) : (if i + 1 ≥ size then 0 else i + 1) = (i + 1) % size := by
  split_ifs with last
  · have round : i + 1 = size := Nat.le_antisymm inside last
    rw [round, Nat.mod_self]
  · rw [Nat.mod_eq_of_lt (not_le.1 last)]

end Ring
