import JinyKernel.Net.Model
import JinyKernel.Shared.EndAround

-- tcp.cc: the additions with `if (sum < t) sum++` behind them are `add`.

namespace JinyKernel.Net

open List Words EndAround
open EndAround (Stands Pending Counts wordSum)

def chksumLoop (sum : Nat) : List UInt8 -> Nat
  | first :: second :: rest => chksumLoop (add (2 ^ 16) sum (first.toNat * 2 ^ 8 + second.toNat)) rest
  | [last] => add (2 ^ 16) sum (last.toNat * 2 ^ 8)
  | [] => sum

def chksum (sum : Nat) (data : List UInt8) : Nat := chksumLoop sum (data.take (data.length % 2 ^ 16))

def sumLong (sum : Nat) : List UInt8 -> Nat × List UInt8
  | b0 :: b1 :: b2 :: b3 :: b4 :: b5 :: b6 :: b7 :: rest =>
    sumLong (add (2 ^ 64) sum (ofBytes [b0, b1, b2, b3, b4, b5, b6, b7])) rest
  | rest => (sum, rest)

def foldDown (sum : Nat) : Nat :=
  let t1 := add (2 ^ 32) (sum % 2 ^ 32) (sum / 2 ^ 32)
  add (2 ^ 16) (t1 % 2 ^ 16) (t1 / 2 ^ 16)

def checksumForLarge1 (argSum : Nat) (buf : List UInt8) : Nat :=
  let (sum, rest) := sumLong 0 buf
  add (2 ^ 16) argSum (chksum (htons (foldDown sum)) rest)

def adc (acc : Nat × Nat) (word : Nat) : Nat × Nat :=
  ((acc.1 + word + acc.2) % 2 ^ 64, (acc.1 + word + acc.2) / 2 ^ 64)

-- The loop at label 1; neither `lea` nor `dec` changes the carry flag.
def adcLoop : Nat -> Nat × Nat -> List UInt8 -> Nat × Nat
  | 0, acc, _ => acc
  | ecx + 1, acc, data =>
    let word k := ofBytes ((data.drop k).take 8)
    adcLoop ecx (adc (adc (adc (adc acc (word 0)) (word 8)) (word 16)) (word 24)) (data.drop 32)

def adcSum (data : List UInt8) : Nat :=
  let ecx := data.length % 2 ^ 32 / 2 ^ 5
  if ecx = 0 then 0
  else
    let (rax, carry) := adcLoop ecx (0, 0) data
    (rax + carry) % 2 ^ 64

def checksumForLarge2 (inSum : Nat) (buf : List UInt8) : Nat :=
  let t4 := htons (foldDown (adcSum buf))
  let len := buf.length % 2 ^ 5
  let t3 := if len = 0 then t4 else chksum t4 (buf.drop (buf.length - len))
  add (2 ^ 16) inSum t3

section

variable {sum total : Nat} {data front : List UInt8}

theorem chksumLoop_stands (stands : Stands (2 ^ 16) sum total) (data : List UInt8) :
    Stands (2 ^ 16) (chksumLoop sum data) (total + wordSum data) := by
  fun_induction chksumLoop sum data generalizing total with
  | case1 sum first second rest ih =>
    have high := first.toNat_lt
    have low := second.toNat_lt
    have word : first.toNat * 2 ^ 8 + second.toNat < 2 ^ 16 := by omega
    have next := ih (stands.add (.refl word))
    rwa [Nat.add_assoc, ← wordSum_cons] at next
  | case2 sum last =>
    have high := last.toNat_lt
    have word : last.toNat * 2 ^ 8 < 2 ^ 16 := by omega
    rw [wordSum_singleton]
    exact stands.add (.refl word)
  | case3 sum => exact stands

theorem chksum_stands (stands : Stands (2 ^ 16) sum total) (short : data.length < 2 ^ 16) :
    Stands (2 ^ 16) (chksum sum data) (total + wordSum data) := by
  rw [chksum, Nat.mod_eq_of_lt short, take_length]
  exact chksumLoop_stands stands data

theorem foldDown_stands (stands : Stands (2 ^ 64) sum total) : Stands (2 ^ 16) (foldDown sum) total :=
  have half : Stands (2 ^ 32) (add (2 ^ 32) (sum % 2 ^ 32) (sum / 2 ^ 32)) total := stands.fold
  have quarter : Stands (2 ^ 16) (foldDown sum) total := half.fold
  quarter

theorem htons_stands (counts : Counts total front) (stands : Stands (2 ^ 64) sum total) :
    Stands (2 ^ 16) (htons (foldDown sum)) (wordSum front) := by
  refine (foldDown_stands stands).swap.congr counts.same ?_
  rw [Nat.mul_eq_zero, counts.zero]
  simp

theorem sumLong_stands (stands : Stands (2 ^ 64) sum total) (counts : Counts total front) (data : List UInt8) :
    ∃ more total', data = more ++ (sumLong sum data).2 ∧ Counts total' (front ++ more) ∧
      Stands (2 ^ 64) (sumLong sum data).1 total' := by
  fun_induction sumLong sum data generalizing total front with
  | case1 sum b0 b1 b2 b3 b4 b5 b6 b7 rest ih =>
    have below : ofBytes [b0, b1, b2, b3, b4, b5, b6, b7] < 2 ^ 64 :=
      (ofBytes_lt _).trans_eq (by norm_num)
    have step := ih (stands.add (.refl below)) (counts.append ⟨4, rfl⟩)
    obtain ⟨more, total', split, after, sums⟩ := step
    refine ⟨[b0, b1, b2, b3, b4, b5, b6, b7] ++ more, total', ?_, ?_, sums⟩
    · rw [append_assoc, ← split]
      rfl
    · rwa [append_assoc] at after
  | case2 sum data small => exact ⟨[], total, rfl, by rwa [append_nil], stands⟩

theorem adc_pending {acc : Nat × Nat} {word : List UInt8} (pending : Pending (2 ^ 64) acc.1 acc.2 total)
    (counts : Counts total front) (length : word.length = 8) :
    Pending (2 ^ 64) (adc acc (ofBytes word)).1 (adc acc (ofBytes word)).2 (total + ofBytes word) ∧
      Counts (total + ofBytes word) (front ++ word) := by
  have below : ofBytes word < 2 ^ 64 := (ofBytes_lt _).trans_eq (by rw [length]; norm_num)
  exact ⟨pending.adc below, counts.append (by rw [length]; decide)⟩

theorem adcLoop_pending (ecx : Nat) {acc : Nat × Nat} (pending : Pending (2 ^ 64) acc.1 acc.2 total)
    (counts : Counts total front) (long : 32 * ecx ≤ data.length) :
    ∃ total', Pending (2 ^ 64) (adcLoop ecx acc data).1 (adcLoop ecx acc data).2 total' ∧
      Counts total' (front ++ data.take (32 * ecx)) := by
  induction ecx generalizing acc total front data with
  | zero => exact ⟨total, pending, by simpa using counts⟩
  | succ ecx ih =>
    have length (k : Nat) (inside : k ≤ 24) : ((data.drop k).take 8).length = 8 := by simp; omega
    obtain ⟨pending, counts⟩ := adc_pending pending counts (length 0 (by decide))
    obtain ⟨pending, counts⟩ := adc_pending pending counts (length 8 (by decide))
    obtain ⟨pending, counts⟩ := adc_pending pending counts (length 16 (by decide))
    obtain ⟨pending, counts⟩ := adc_pending pending counts (length 24 (by decide))
    have shorter : 32 * ecx ≤ (data.drop 32).length := by simp; omega
    obtain ⟨total', after, counted⟩ := ih pending counts shorter
    refine ⟨total', after, ?_⟩
    have words : data.take (32 * (ecx + 1)) = (data.drop 0).take 8 ++ ((data.drop 8).take 8 ++
        ((data.drop 16).take 8 ++ ((data.drop 24).take 8 ++ (data.drop 32).take (32 * ecx)))) := by
      have block : 32 * (ecx + 1) = 8 + (8 + (8 + (8 + 32 * ecx))) := by omega
      simp [block, take_add]
    rw [words]
    simpa only [append_assoc] using counted

theorem adcSum_stands (short : data.length < 2 ^ 16) :
    ∃ total, Stands (2 ^ 64) (adcSum data) total ∧
      Counts total (data.take (data.length - data.length % 2 ^ 5)) := by
  have size : data.length % 2 ^ 32 / 2 ^ 5 = data.length / 32 := by omega
  have blocks : data.length - data.length % 2 ^ 5 = 32 * (data.length / 32) := by omega
  have start : Pending (2 ^ 64) (0, 0).1 (0, 0).2 0 := ⟨by decide, by decide, by decide, rfl, by decide⟩
  rw [adcSum, size, blocks]
  split_ifs with none
  · rw [none]
    exact ⟨0, .refl (by decide), .nil⟩
  · have inside : 32 * (data.length / 32) ≤ data.length := by omega
    obtain ⟨total, pending, counts⟩ := adcLoop_pending (data.length / 32) start .nil inside
    exact ⟨total, pending.finish, counts⟩

variable {inSum : Nat} (given : inSum < 2 ^ 16) (short : data.length < 2 ^ 16)

include given short

theorem checksumForLarge1_stands : Stands (2 ^ 16) (checksumForLarge1 inSum data) (inSum + wordSum data) := by
  obtain ⟨front, total, split, counts, stands⟩ := sumLong_stands (.refl (by decide)) Counts.nil data
  rw [nil_append] at counts
  have rest : (sumLong 0 data).2.length < 2 ^ 16 := by
    have lengths := congrArg List.length split
    rw [length_append] at lengths
    omega
  have sum := chksum_stands (htons_stands counts stands) rest
  rw [← wordSum_append counts.even, ← split] at sum
  exact (Stands.refl given).add sum

theorem checksumForLarge2_stands : Stands (2 ^ 16) (checksumForLarge2 inSum data) (inSum + wordSum data) := by
  obtain ⟨total, stands, counts⟩ := adcSum_stands short
  have front := htons_stands counts stands
  refine (Stands.refl given).add ?_
  split_ifs with whole
  · rwa [whole, Nat.sub_zero, take_length] at front
  have rest : (data.drop (data.length - data.length % 2 ^ 5)).length < 2 ^ 16 := by
    rw [length_drop]
    omega
  have sum := chksum_stands front rest
  rwa [← wordSum_append counts.even, take_append_drop] at sum

theorem checksumForLarge2_eq : checksumForLarge2 inSum data = chksum inSum data :=
  (checksumForLarge2_stands given short).unique (chksum_stands (.refl given) short)

end

theorem checksums_agree (sum : Nat) (data : List UInt8) (given : sum < 2 ^ 16) (short : data.length ≤ 65535) :
    checksumForLarge1 sum data = chksum sum data ∧ checksumForLarge2 sum data = chksum sum data ∧
      (chksum sum data = 0 -> sum = 0 ∧ ∀ byte ∈ data, byte = 0) := by
  have fits : data.length < 2 ^ 16 := by omega
  have stands := chksum_stands (.refl given) fits
  refine ⟨(checksumForLarge1_stands given fits).unique stands, checksumForLarge2_eq given fits, ?_⟩
  rw [stands.zero, Nat.add_eq_zero_iff, wordSum_eq_zero]
  exact id

theorem checksums_agree_odd :
    chksum 1 [0xff, 0xfe, 0] = 0xffff ∧ checksumForLarge2 1 [0xff, 0xfe, 0] = 0xffff := by
  have value : chksum 1 [0xff, 0xfe, 0] = 0xffff := by decide
  exact ⟨value, (checksums_agree 1 [0xff, 0xfe, 0] (by decide) (by decide)).2.1.trans value⟩

end JinyKernel.Net
