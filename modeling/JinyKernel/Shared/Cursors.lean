import Mathlib.Data.List.Range
import Mathlib.Data.Nat.ModEq

-- A ring of `size` slots between two counters that wrap at `modulus`, a multiple of `size`.

namespace Cursors

open Function List

variable {Item : Type} {modulus size start stop : Nat} {ring : Nat -> Item}

def distance (modulus start stop : Nat) : Nat := (stop + modulus - start) % modulus

def pending (modulus size : Nat) (ring : Nat -> Item) (start stop : Nat) : List Item :=
  (List.range (distance modulus start stop)).map fun k => ring ((start + k) % size)

@[simp]
theorem length_pending : (pending modulus size ring start stop).length = distance modulus start stop := by
  rw [pending, length_map, length_range]

theorem distance_add (start n : Nat) (inside : start < modulus) (short : n < modulus) :
    distance modulus start ((start + n) % modulus) = n := by
  rw [distance]
  rcases Nat.lt_or_ge (start + n) modulus with below | above
  · rw [Nat.mod_eq_of_lt below, show start + n + modulus - start = n + modulus by omega, Nat.add_mod_right,
      Nat.mod_eq_of_lt short]
  · rw [Nat.mod_eq_sub_mod above, Nat.mod_eq_of_lt (by omega : start + n - modulus < modulus),
      show start + n - modulus + modulus - start = n by omega, Nat.mod_eq_of_lt short]

theorem start_add_distance (first : start < modulus) (last : stop < modulus) :
    (start + distance modulus start stop) % modulus = stop := by
  rw [distance, Nat.add_mod_mod, show start + (stop + modulus - start) = stop + modulus by omega, Nat.add_mod_right,
    Nat.mod_eq_of_lt last]

theorem wrap_mod (divides : size ∣ modulus) (k : Nat) : (stop % modulus + k) % size = (stop + k) % size := by
  rw [Nat.add_mod, Nat.mod_mod_of_dvd _ divides, ← Nat.add_mod]

variable (divides : size ∣ modulus) (first : start < modulus) (last : stop < modulus)

include divides first last

theorem next_slot : stop % size = (start + distance modulus start stop) % size := by
  have whole := start_add_distance first last
  calc stop % size = (start + distance modulus start stop) % modulus % size := by rw [whole]
    _ = (start + distance modulus start stop) % size := Nat.mod_mod_of_dvd _ divides

theorem pending_push (small : size < modulus) (room : distance modulus start stop < size) (item : Item) :
    pending modulus size (update ring (stop % size) item) start ((stop + 1) % modulus) =
      pending modulus size ring start stop ++ [item] := by
  have longer : distance modulus start ((stop + 1) % modulus) = distance modulus start stop + 1 := by
    have stepped := distance_add start (distance modulus start stop + 1) first (by omega)
    rwa [← Nat.add_assoc, Nat.add_mod, start_add_distance first last, Nat.add_mod_mod] at stepped
  rw [pending, longer, range_succ, map_append, map_singleton, ← next_slot divides first last,
    update_self]
  congr 1
  apply map_congr_left
  intro k among
  have before := mem_range.1 among
  apply update_of_ne
  -- fewer than `size` items are pending, so their slots differ from the next one
  intro same
  rw [next_slot divides first last] at same
  have close := Nat.ModEq.add_left_cancel' start same
  rw [Nat.ModEq, Nat.mod_eq_of_lt (by omega), Nat.mod_eq_of_lt room] at close
  omega

theorem pending_pop (more : start ≠ stop) :
    pending modulus size ring start stop =
      ring (start % size) :: pending modulus size ring ((start + 1) % modulus) stop := by
  have positive : 0 < distance modulus start stop := by
    rw [distance, Nat.pos_iff_ne_zero]
    intro zero
    rcases Nat.lt_or_ge stop start with below | above
    · rw [Nat.mod_eq_of_lt (by omega)] at zero
      omega
    · rw [Nat.mod_eq_sub_mod (by omega), Nat.mod_eq_of_lt (by omega)] at zero
      omega
  have shorter : distance modulus ((start + 1) % modulus) stop = distance modulus start stop - 1 := by
    have bound : distance modulus start stop < modulus := Nat.mod_lt _ (Nat.zero_lt_of_lt first)
    have stepped := distance_add ((start + 1) % modulus) (distance modulus start stop - 1)
      (Nat.mod_lt _ (Nat.zero_lt_of_lt first)) (by omega)
    rwa [Nat.mod_add_mod, show start + 1 + (distance modulus start stop - 1) =
      start + distance modulus start stop by omega,
      start_add_distance first last] at stepped
  obtain ⟨n, count⟩ := Nat.exists_eq_add_of_lt positive
  rw [pending, pending, shorter, count, Nat.add_sub_cancel, range_succ_eq_map, map_cons, Nat.add_zero,
    map_map]
  congr 1
  apply map_congr_left
  intro k _
  rw [comp_apply, wrap_mod divides, Nat.add_assoc, Nat.add_comm 1, Nat.succ_eq_add_one]

end Cursors
