import Mathlib.Tactic.Ring
import Mathlib.Data.List.Basic

namespace Memory

open List Option

variable {Cell : Type} {memory other : Nat -> Cell} {start len : Nat}

def window (memory : Nat -> Cell) (start len : Nat) : List Cell := (List.range len).map fun k => memory (start + k)

@[simp]
theorem length_window (memory : Nat -> Cell) (start len : Nat) : (window memory start len).length = len := by
  rw [window, length_map, length_range]

theorem getElem?_window {k : Nat} (within : k < len) : (window memory start len)[k]? = some (memory (start + k)) := by
  rw [window, getElem?_map, getElem?_range within, map_some]

theorem window_congr {start' : Nat} (same : ∀ k < len, other (start' + k) = memory (start + k)) :
    window other start' len = window memory start len :=
  map_congr_left fun k among => same k (mem_range.1 among)

theorem window_eq_iff :
    window other start len = window memory start len ↔ ∀ k < len, other (start + k) = memory (start + k) := by
  constructor
  · intro same k within
    have cell := congrArg (·[k]?) same
    simpa only [getElem?_window within, some.injEq] using cell
  · exact window_congr

theorem window_add (memory : Nat -> Cell) (start front back : Nat) :
    window memory start (front + back) = window memory start front ++ window memory (start + front) back := by
  rw [window, List.range_add, List.map_append, List.map_map]
  simp [window, Nat.add_assoc]

theorem take_window {n : Nat} (within : n ≤ len) : (window memory start len).take n = window memory start n := by
  obtain ⟨rest, rfl⟩ := Nat.exists_eq_add_of_le within
  rw [window_add, take_left' (length_window ..)]

theorem drop_window (memory : Nat -> Cell) (start len n : Nat) :
    (window memory start len).drop n = window memory (start + n) (len - n) := by
  by_cases within : n ≤ len
  · obtain ⟨rest, rfl⟩ := Nat.exists_eq_add_of_le within
    rw [window_add, drop_left' (length_window ..), Nat.add_sub_cancel_left]
  · have zero : len - n = 0 := by omega
    rw [zero, drop_of_length_le (by rw [length_window]; omega)]
    rfl

variable {data : List Cell} {zero : Cell}

theorem window_eq_take (zero : Cell) (within : len ≤ data.length)
    (holds : ∀ k < len, memory (start + k) = data.getD k zero) : window memory start len = data.take len := by
  apply ext_getElem?
  intro k
  by_cases inside : k < len
  · rw [getElem?_window inside, getElem?_take_of_lt inside, holds k inside, getD_eq_getElem?_getD,
      getElem?_eq_getElem (by omega), getD_some]
  · rw [getElem?_eq_none (by simpa using inside), getElem?_eq_none (by simp; omega)]

theorem window_replicate (zeros : ∀ k < len, memory (start + k) = zero) :
    window memory start len = List.replicate len zero := by
  apply ext_getElem?
  intro k
  by_cases within : k < len
  · rw [getElem?_window within, getElem?_replicate_of_lt within, zeros k within]
  · rw [getElem?_eq_none (by simpa using within), getElem?_eq_none (by simpa using within)]

theorem zeros_of_window (same : window memory start len = List.replicate len zero) :
    ∀ k < len, memory (start + k) = zero := by
  intro k within
  have cell := congrArg (·[k]?) same
  simpa only [getElem?_window within, getElem?_replicate_of_lt within, some.injEq] using cell

def store (memory : Nat -> Cell) (pos : Nat) (data : List Cell) (i : Nat) : Cell :=
  if pos ≤ i then data[i - pos]?.getD (memory i) else memory i

section

variable {pos : Nat} {data : List Cell}

theorem store_apart {i : Nat} (apart : i < pos ∨ pos + data.length ≤ i) : store memory pos data i = memory i := by
  rw [store]
  split
  next => rw [getElem?_eq_none (by omega), getD_none]
  next => rfl

theorem window_store (length : data.length = len) : window (store memory pos data) pos len = data := by
  subst length
  apply ext_getElem?
  intro k
  by_cases inside : k < data.length
  · rw [getElem?_window inside, store, if_pos (Nat.le_add_right pos k), Nat.add_sub_cancel_left,
      getElem?_eq_getElem inside, getD_some]
  · rw [getElem?_eq_none (by simpa using inside), getElem?_eq_none (by simpa using inside)]

theorem window_store_apart (apart : start + len ≤ pos ∨ pos + data.length ≤ start) :
    window (store memory pos data) start len = window memory start len :=
  window_congr fun _ within => store_apart (by omega)

theorem window_store_between (front back : Nat) :
    window (store memory (start + front) data) start (front + (data.length + back)) =
      window memory start front ++ data ++ window memory (start + front + data.length) back := by
  rw [window_add, window_add, window_store rfl, window_store_apart (.inl (Nat.le_refl _)),
    window_store_apart (.inr (Nat.le_refl _)),
    append_assoc]

end

def storeAll (memory : Nat -> Cell) (fields : List (Nat × List Cell)) : Nat -> Cell :=
  fields.foldl (fun memory field => store memory field.1 field.2) memory

theorem storeAll_append (memory : Nat -> Cell) (front back : List (Nat × List Cell)) :
    storeAll memory (front ++ back) = storeAll (storeAll memory front) back := List.foldl_append

def Spares (start len : Nat) (field : Nat × List Cell) : Prop :=
  start + len ≤ field.1 ∨ field.1 + field.2.length ≤ start

theorem window_storeAll_spared {fields : List (Nat × List Cell)} (spared : ∀ field ∈ fields, Spares start len field) :
    window (storeAll memory fields) start len = window memory start len := by
  induction fields generalizing memory with
  | nil => rfl
  | cons field rest ih =>
    exact (ih fun other among => spared other (mem_cons_of_mem _ among)).trans
      (window_store_apart (spared field mem_cons_self))

theorem window_storeAll {front back : List (Nat × List Cell)} {pos : Nat} (length : data.length = len)
    (spared : ∀ field ∈ back, Spares pos len field) :
    window (storeAll memory (front ++ (pos, data) :: back)) pos len = data := by
  rw [storeAll_append]
  exact (window_storeAll_spared spared).trans (window_store length)

def overwrite (zero : Cell) (file : List Cell) (offset : Nat) (data : List Cell) : List Cell :=
  (file ++ List.replicate (offset - file.length) zero).take offset ++ data ++ file.drop (offset + data.length)

theorem front_iff {offset : Nat} :
    (window memory start len ++ List.replicate (offset - len) zero).take offset = window memory start offset ↔
      ∀ k, len ≤ k -> k < offset -> memory (start + k) = zero := by
  by_cases inside : offset ≤ len
  · have zero : offset - len = 0 := by omega
    rw [zero, replicate_zero, append_nil, take_window inside]
    exact ⟨fun _ k low high => absurd high (by omega), fun _ => rfl⟩
  obtain ⟨gap, rfl⟩ := Nat.exists_eq_add_of_le (Nat.le_of_not_le inside)
  rw [Nat.add_sub_cancel_left, take_of_length_le (by simp), window_add]
  constructor
  · intro same k low high
    have zeros := zeros_of_window (append_cancel_left same).symm (k - len) (by omega)
    rwa [Nat.add_assoc, Nat.add_sub_cancel' low] at zeros
  intro zeros
  have gapZero : window memory (start + len) gap = List.replicate gap zero := by
    apply window_replicate
    intro k within
    rw [Nat.add_assoc]
    exact zeros (len + k) (by omega) (by omega)
  rw [gapZero]

theorem window_overwrite_iff {offset : Nat} (written : window other (start + offset) data.length = data)
    (kept : ∀ k < max len (offset + data.length), k < offset ∨ offset + data.length ≤ k ->
      other (start + k) = memory (start + k)) :
    window other start (max len (offset + data.length)) = overwrite zero (window memory start len) offset data ↔
      ∀ k, len ≤ k -> k < offset -> memory (start + k) = zero := by
  have split : max len (offset + data.length) = offset + data.length + (len - (offset + data.length)) := by omega
  have front := window_congr fun k within => kept k (by omega) (.inl within)
  have back : window other (start + (offset + data.length)) (len - (offset + data.length)) =
      window memory (start + (offset + data.length)) (len - (offset + data.length)) := by
    apply window_congr
    intro k within
    rw [Nat.add_assoc]
    exact kept _ (by omega) (.inr (by omega))
  rw [overwrite, length_window, drop_window, split, window_add, window_add, front, written, back,
    append_left_inj, append_left_inj, eq_comm]
  exact front_iff

end Memory

namespace Words

def bytesOf : Nat -> Nat -> List UInt8
  | 0, _ => []
  | width + 1, value => UInt8.ofNat (value % 256) :: bytesOf width (value / 256)

def ofBytes : List UInt8 -> Nat
  | [] => 0
  | byte :: rest => byte.toNat + 256 * ofBytes rest

@[simp]
theorem length_bytesOf (width value : Nat) : (bytesOf width value).length = width := by
  induction width generalizing value with
  | zero => rfl
  | succ width ih => rw [bytesOf, List.length_cons, ih]

theorem ofBytes_bytesOf (width value : Nat) : ofBytes (bytesOf width value) = value % 256 ^ width := by
  induction width generalizing value with
  | zero => simp [bytesOf, ofBytes, Nat.mod_one]
  | succ width ih =>
    have byte : (UInt8.ofNat (value % 256)).toNat = value % 256 := by simp
    rw [bytesOf, ofBytes, byte, ih, Nat.pow_succ', Nat.mod_mul]

theorem ofBytes_lt (bytes : List UInt8) : ofBytes bytes < 256 ^ bytes.length := by
  induction bytes with
  | nil => simp [ofBytes]
  | cons byte rest ih =>
    have small := byte.toNat_lt
    rw [ofBytes, List.length_cons, Nat.pow_succ']
    omega

end Words
