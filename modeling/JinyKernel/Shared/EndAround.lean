import JinyKernel.Shared.Memory
import Mathlib.Algebra.BigOperators.Group.List.Basic
import Mathlib.Data.Nat.ModEq

-- A number below `base` stands for a total modulo `base - 1`, and only 0 stands for 0.

namespace EndAround

open List Words

structure Stands (base value total : Nat) : Prop where
  below : value < base
  same : value ≡ total [MOD base - 1]
  zero : value = 0 ↔ total = 0

def add (base a b : Nat) : Nat :=
  let sum := (a + b) % base
  if sum < b then (sum + 1) % base else sum

section

variable {base value other a b s t : Nat}

theorem Stands.refl (below : value < base) : Stands base value value := ⟨below, rfl, Iff.rfl⟩

theorem Stands.unique (left : Stands base value t) (right : Stands base other t) : value = other := by
  have below := left.below
  have below' := right.below
  have zero := left.zero.trans right.zero.symm
  have same : value % (base - 1) = other % (base - 1) := left.same.trans right.same.symm
  by_cases top : value = base - 1
  · by_cases top' : other = base - 1
    · rw [top, top']
    · rw [top, Nat.mod_self, Nat.mod_eq_of_lt (by omega)] at same
      exact zero.2 same.symm ▸ same
  · by_cases top' : other = base - 1
    · rw [top', Nat.mod_self, Nat.mod_eq_of_lt (by omega)] at same
      exact same.trans (zero.1 same).symm
    · rwa [Nat.mod_eq_of_lt (by omega), Nat.mod_eq_of_lt (by omega)] at same

theorem Stands.congr (stands : Stands base value s) (same : s ≡ t [MOD base - 1]) (zero : s = 0 ↔ t = 0) :
    Stands base value t :=
  ⟨stands.below, stands.same.trans same, stands.zero.trans zero⟩

theorem add_eq (left : a < base) (right : b < base) :
    add base a b = if a + b < base then a + b else a + b - (base - 1) := by
  rw [add]
  by_cases small : a + b < base
  · rw [if_pos small, Nat.mod_eq_of_lt small, if_neg (by omega)]
  have wrapped : (a + b) % base = a + b - base := by
    rw [Nat.mod_eq_sub_mod (by omega), Nat.mod_eq_of_lt (by omega)]
  rw [if_neg small, wrapped, if_pos (by omega), Nat.mod_eq_of_lt (by omega)]
  omega

theorem Stands.add (left : Stands base a s) (right : Stands base b t) :
    Stands base (EndAround.add base a b) (s + t) := by
  have below := left.below
  have below' := right.below
  have zero := left.zero
  have zero' := right.zero
  rw [add_eq below below']
  split_ifs with small
  · exact ⟨small, left.same.add right.same, by omega⟩
  refine ⟨by omega, ?_, by omega⟩
  have carried : a + b - (base - 1) ≡ a + b [MOD base - 1] :=
    (Nat.modEq_iff_dvd' (by omega)).2 ⟨1, by omega⟩
  exact carried.trans (left.same.add right.same)

theorem Stands.fold (stands : Stands (base * base) value t) :
    Stands base (EndAround.add base (value % base) (value / base)) t := by
  have below := stands.below
  have positive : 0 < base := Nat.pos_of_mul_pos_left (Nat.zero_lt_of_lt below)
  have halves := Nat.div_add_mod value base
  have unit : base ≡ 1 [MOD base - 1] := ((Nat.modEq_iff_dvd' positive).2 (dvd_refl _)).symm
  have folded : value % base + value / base ≡ value [MOD base - 1] := by
    have scaled := (unit.mul_right (value / base)).add_right (value % base)
    rw [halves, Nat.one_mul, Nat.add_comm] at scaled
    exact scaled.symm
  have divides : base - 1 ∣ base * base - 1 := by
    have square := (unit.mul unit).symm
    rw [Nat.mul_one] at square
    exact (Nat.modEq_iff_dvd' (Nat.mul_pos positive positive)).1 square
  have low : Stands base (value % base) (value % base) := .refl (Nat.mod_lt _ positive)
  have high : Stands base (value / base) (value / base) := .refl (Nat.div_lt_of_lt_mul below)
  refine (low.add high).congr (folded.trans (stands.same.of_dvd divides)) ?_
  rw [← stands.zero, Nat.add_eq_zero_iff]
  constructor
  · rintro ⟨mod, div⟩
    rw [← halves, mod, div, Nat.mul_zero]
  · rintro rfl
    exact ⟨Nat.zero_mod _, Nat.zero_div _⟩

theorem Stands.full (stands : Stands base value t) (large : 1 < base) (nonzero : t ≠ 0) (divides : base - 1 ∣ t) :
    value = base - 1 := by
  refine stands.unique ⟨by omega, ?_, by omega⟩
  exact Nat.ModEq.symm ((Nat.modEq_zero_iff_dvd.2 divides).trans (Nat.modEq_zero_iff_dvd.2 (dvd_refl _)).symm)

end

structure Pending (base value carry total : Nat) : Prop where
  below : value < base
  bit : carry ≤ 1
  room : value + carry < base
  same : value + carry ≡ total [MOD base - 1]
  zero : value + carry = 0 ↔ total = 0

section

variable {base value carry total : Nat}

theorem Pending.adc (pending : Pending base value carry total) {word : Nat} (below : word < base) :
    Pending base ((value + word + carry) % base) ((value + word + carry) / base) (total + word) := by
  obtain ⟨low, bit, room, same, zero⟩ := pending
  have sum : value + word + carry ≡ total + word [MOD base - 1] := by
    rw [Nat.add_right_comm]
    exact same.add_right word
  by_cases small : value + word + carry < base
  · rw [Nat.mod_eq_of_lt small, Nat.div_eq_of_lt small]
    exact ⟨small, by omega, small, sum, by omega⟩
  have quotient : (value + word + carry) / base = 1 := by
    rw [Nat.div_eq_iff (by omega)]
    omega
  have rest : (value + word + carry) % base = value + word + carry - base := by
    rw [Nat.mod_eq_sub_mod (by omega), Nat.mod_eq_of_lt (by omega)]
  rw [quotient, rest]
  refine ⟨by omega, le_rfl, by omega, ?_, by omega⟩
  have carried : value + word + carry - base + 1 ≡ value + word + carry [MOD base - 1] :=
    (Nat.modEq_iff_dvd' (by omega)).2 ⟨1, by omega⟩
  exact carried.trans sum

theorem Pending.finish (pending : Pending base value carry total) : Stands base ((value + carry) % base) total := by
  rw [Nat.mod_eq_of_lt pending.room]
  exact ⟨pending.room, pending.same, pending.zero⟩

end

def bigWords : List UInt8 -> List Nat
  | first :: second :: rest => (first.toNat * 256 + second.toNat) :: bigWords rest
  | [last] => [last.toNat * 256]
  | [] => []

variable (bytes : List UInt8)

def wordSum : Nat := (bigWords bytes).sum

theorem wordSum_cons (first second : UInt8) (rest : List UInt8) :
    wordSum (first :: second :: rest) = first.toNat * 2 ^ 8 + second.toNat + wordSum rest := by
  simp [wordSum, bigWords]

theorem wordSum_singleton (last : UInt8) : wordSum [last] = last.toNat * 2 ^ 8 := by simp [wordSum, bigWords]

def onesSum : Nat := (bigWords bytes).foldl (add (2 ^ 16)) 0

variable {value total : Nat} {front : List UInt8}

theorem stands_foldl {base : Nat} (words : List Nat) (below : ∀ word ∈ words, word < base)
    (stands : Stands base value total) : Stands base (words.foldl (add base) value) (total + words.sum) := by
  induction words generalizing value total with
  | nil => exact stands
  | cons word rest ih =>
    have next := stands.add (.refl (below word mem_cons_self))
    rw [foldl_cons, sum_cons, ← Nat.add_assoc]
    exact ih (fun other among => below other (mem_cons_of_mem _ among)) next

theorem bigWords_lt : ∀ word ∈ bigWords bytes, word < 2 ^ 16 := by
  fun_induction bigWords bytes with
  | case1 first second rest ih =>
    have high := first.toNat_lt
    have low := second.toNat_lt
    exact forall_mem_cons.2 ⟨by omega, ih⟩
  | case2 last =>
    have high := last.toNat_lt
    simp
    omega
  | case3 => simp

theorem stands_onesSum : Stands (2 ^ 16) (onesSum bytes) (wordSum bytes) := by
  have sum := stands_foldl (bigWords bytes) (bigWords_lt bytes) (.refl (Nat.two_pow_pos 16))
  rwa [Nat.zero_add] at sum

theorem wordSum_append (even : 2 ∣ front.length) (back : List UInt8) :
    wordSum (front ++ back) = wordSum front + wordSum back := by
  fun_induction bigWords front with
  | case1 first second rest ih =>
    have shorter : 2 ∣ rest.length := by simpa [Nat.dvd_add_right] using even
    have step := ih shorter
    simp only [wordSum, cons_append, bigWords, sum_cons] at step ⊢
    omega
  | case2 last => simp at even
  | case3 => simp [wordSum, bigWords]

theorem wordSum_eq_zero : wordSum bytes = 0 ↔ ∀ byte ∈ bytes, byte = 0 := by
  have zero (byte : UInt8) : byte.toNat = 0 ↔ byte = 0 := by rw [← UInt8.toNat_inj]; rfl
  fun_induction bigWords bytes with
  | case1 first second rest ih =>
    simp only [wordSum] at ih
    simp [wordSum, bigWords, ih, zero, and_assoc]
  | case2 last => simp [wordSum, bigWords, zero]
  | case3 => simp [wordSum, bigWords]

theorem ofBytes_eq_zero : ofBytes bytes = 0 ↔ ∀ byte ∈ bytes, byte = 0 := by
  induction bytes with
  | nil => simp [ofBytes]
  | cons byte rest ih =>
    have zero : byte.toNat = 0 ↔ byte = 0 := by rw [← UInt8.toNat_inj]; rfl
    simp [ofBytes, ih, zero]

theorem ofBytes_wordSum : 256 * ofBytes bytes ≡ wordSum bytes [MOD 2 ^ 16 - 1] := by
  fun_induction bigWords bytes with
  | case1 first second rest ih =>
    simp only [wordSum, bigWords, sum_cons, ofBytes]
    have split : 256 * (first.toNat + 256 * (second.toNat + 256 * ofBytes rest)) =
        first.toNat * 256 + second.toNat + 256 * ofBytes rest +
          (2 ^ 16 - 1) * (second.toNat + 256 * ofBytes rest) := by omega
    rw [split]
    have folded : _ ≡ first.toNat * 256 + second.toNat + 256 * ofBytes rest [MOD 2 ^ 16 - 1] :=
      Nat.add_mul_mod_self_left _ (2 ^ 16 - 1) (second.toNat + 256 * ofBytes rest)
    exact folded.trans (ih.add_left _)
  | case2 last =>
    simp only [wordSum, bigWords, ofBytes, sum_singleton, Nat.mul_comm]
    rfl
  | case3 => rfl

structure Counts (total : Nat) (bytes : List UInt8) : Prop where
  even : 2 ∣ bytes.length
  same : 256 * total ≡ wordSum bytes [MOD 2 ^ 16 - 1]
  zero : total = 0 ↔ wordSum bytes = 0

theorem Counts.nil : Counts 0 [] := ⟨by simp, rfl, by simp [wordSum, bigWords]⟩

theorem Counts.append {back : List UInt8} (counts : Counts total front) (even : 2 ∣ back.length) :
    Counts (total + ofBytes back) (front ++ back) := by
  refine ⟨?_, ?_, ?_⟩
  · rw [length_append]
    exact Nat.dvd_add counts.even even
  · rw [Nat.mul_add, wordSum_append counts.even]
    exact counts.same.add (ofBytes_wordSum back)
  · rw [wordSum_append counts.even, Nat.add_eq_zero_iff, Nat.add_eq_zero_iff, counts.zero, wordSum_eq_zero back,
      ofBytes_eq_zero]

def swap (value : Nat) : Nat := value / 2 ^ 8 % 2 ^ 8 + value % 2 ^ 8 * 2 ^ 8

theorem swap_pair {low high : Nat} (lowByte : low < 256) (highByte : high < 256) :
    swap (low + high * 256) = high + low * 256 := by
  rw [swap]
  omega

theorem swap_complement (below : value < 2 ^ 16) : swap (2 ^ 16 - 1 - swap value) = 2 ^ 16 - 1 - value := by
  obtain ⟨low, high, lowByte, highByte, rfl⟩ : ∃ low high, low < 256 ∧ high < 256 ∧ value = low + high * 256 :=
    ⟨value % 256, value / 256, by omega, by omega, by omega⟩
  have complement : 2 ^ 16 - 1 - (high + low * 256) = (255 - high) + (255 - low) * 256 := by omega
  rw [swap_pair lowByte highByte, complement, swap_pair (by omega) (by omega)]
  omega

theorem Stands.swap (stands : Stands (2 ^ 16) value total) :
    Stands (2 ^ 16) (EndAround.swap value) (256 * total) := by
  have below := stands.below
  have zero := stands.zero
  rw [EndAround.swap]
  refine ⟨by omega, ?_, by omega⟩
  have turned : value / 2 ^ 8 % 2 ^ 8 + value % 2 ^ 8 * 2 ^ 8 ≡ 256 * value [MOD 2 ^ 16 - 1] :=
    (Nat.modEq_iff_dvd' (by omega)).2 ⟨value / 2 ^ 8, by omega⟩
  exact turned.trans (stands.same.mul_left 256)

theorem wordSum_bytesOf (value : Nat) : wordSum (bytesOf 2 value) = swap value := by
  simp [bytesOf, wordSum, bigWords, swap]
  omega

theorem onesSum_completed {back : List UInt8} {sum : Nat} (even : 2 ∣ front.length)
    (stands : Stands (2 ^ 16) sum (wordSum front + wordSum back)) (nonzero : sum ≠ 0) :
    onesSum (front ++ bytesOf 2 (2 ^ 16 - 1 - swap sum) ++ back) = 2 ^ 16 - 1 := by
  have below := stands.below
  have total : wordSum (front ++ bytesOf 2 (2 ^ 16 - 1 - swap sum) ++ back) =
      wordSum front + wordSum back + (2 ^ 16 - 1 - sum) := by
    have paired : 2 ∣ (bytesOf 2 (2 ^ 16 - 1 - swap sum)).length := by simp
    rw [append_assoc, wordSum_append even, wordSum_append paired, wordSum_bytesOf, swap_complement below]
    omega
  refine (stands_onesSum _).full (by decide) ?_ ?_
  · have stored := mt stands.zero.2 nonzero
    omega
  rw [total]
  have sums := stands.same.add_right (2 ^ 16 - 1 - sum)
  rw [Nat.add_sub_cancel' (by omega)] at sums
  exact Nat.modEq_zero_iff_dvd.1 (sums.symm.trans (Nat.modEq_zero_iff_dvd.2 (dvd_refl _)))

end EndAround
