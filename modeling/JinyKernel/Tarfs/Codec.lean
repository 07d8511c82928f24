import Mathlib.Data.List.TakeWhile
import JinyKernel.Tarfs.Scan

namespace JinyKernel.Tarfs

open List

section

variable {bytes data : Bytes} {pos start len : Nat}

theorem length_put (fits : pos + data.length ≤ bytes.length) : (put bytes pos data).length = bytes.length := by
  simp only [put, length_append, length_take, length_drop]
  omega

theorem getElem?_put (fits : pos + data.length ≤ bytes.length) (i : Nat) :
    (put bytes pos data)[i]? = if pos ≤ i ∧ i < pos + data.length then data[i - pos]? else bytes[i]? := by
  have front : (bytes.take pos).length = pos := by
    rw [length_take]
    omega
  rw [put, append_assoc]
  by_cases before : i < pos
  · rw [getElem?_append_left (by omega), getElem?_take_of_lt before, if_neg (by omega)]
  rw [getElem?_append_right (by omega), front]
  by_cases inside : i < pos + data.length
  · rw [getElem?_append_left (by omega), if_pos (by omega)]
  · rw [getElem?_append_right (by omega), getElem?_drop, if_neg (by omega)]
    congr 1
    omega

theorem getElem?_field (bytes : Bytes) (pos len i : Nat) :
    (field bytes pos len)[i]? = if i < len then bytes[pos + i]? else none := by
  rw [field, getElem?_take, getElem?_drop]

theorem field_put (fits : pos + data.length ≤ bytes.length) : field (put bytes pos data) pos data.length = data := by
  apply ext_getElem?
  intro i
  rw [getElem?_field, getElem?_put fits]
  split
  next => rw [if_pos (by omega), Nat.add_sub_cancel_left]
  next => rw [getElem?_eq_none (by omega)]

theorem field_put_clear (fits : pos + data.length ≤ bytes.length)
    (clear : start + len ≤ pos ∨ pos + data.length ≤ start) :
    field (put bytes pos data) start len = field bytes start len := by
  apply ext_getElem?
  intro i
  rw [getElem?_field, getElem?_field]
  by_cases inside : i < len
  · rw [if_pos inside, if_pos inside, getElem?_put fits, if_neg (by omega)]
  · rw [if_neg inside, if_neg inside]

def fill (bytes : Bytes) (writes : List (Nat × Bytes)) : Bytes :=
  writes.foldl (fun bytes write => put bytes write.1 write.2) bytes

def Inside (size : Nat) (write : Nat × Bytes) : Prop := write.1 + write.2.length ≤ size

def Clear (start len : Nat) (write : Nat × Bytes) : Prop := start + len ≤ write.1 ∨ write.1 + write.2.length ≤ start

variable {size : Nat} {writes : List (Nat × Bytes)}

variable (length : bytes.length = size) (inside : ∀ write ∈ writes, Inside size write)

include length inside

theorem length_fill : (fill bytes writes).length = size := by
  induction writes generalizing bytes with
  | nil => exact length
  | cons write rest ih =>
    refine ih ?_ fun other among => inside other (by simp [among])
    rw [length_put (length ▸ inside write (by simp)), length]

theorem field_fill_clear (clear : ∀ write ∈ writes, Clear start len write) :
    field (fill bytes writes) start len = field bytes start len := by
  induction writes generalizing bytes with
  | nil => rfl
  | cons write rest ih =>
    have fits := length ▸ inside write (by simp)
    have later : field (fill (put bytes write.1 write.2) rest) start len = field (put bytes write.1 write.2) start len :=
      ih (by rw [length_put fits, length]) (fun other among => inside other (by simp [among])) fun other among =>
        clear other (by simp [among])
    exact later.trans (field_put_clear fits (clear write (by simp)))

theorem field_fill {i : Nat} (here : writes[i]? = some (pos, data))
    (clear : ∀ write ∈ writes.drop (i + 1), Clear pos data.length write) :
    field (fill bytes writes) pos data.length = data := by
  obtain ⟨within, same⟩ := List.getElem?_eq_some_iff.1 here
  have split : writes = writes.take i ++ (pos, data) :: writes.drop (i + 1) := by
    rw [← same, getElem_cons_drop, take_append_drop]
  have before : (fill bytes (writes.take i)).length = size :=
    length_fill length fun other among => inside other (mem_of_mem_take among)
  have fits : pos + data.length ≤ (fill bytes (writes.take i)).length := before ▸ inside (pos, data)
    (mem_of_getElem? here)
  have filled : fill bytes writes = fill (put (fill bytes (writes.take i)) pos data) (writes.drop (i + 1)) := by
    rw [split, fill, foldl_append, foldl_cons, ← split]
    rfl
  rw [filled, field_fill_clear (by rw [length_put fits, before])
    (fun other among => inside other (mem_of_mem_drop among)) clear, field_put fits]

end

section

theorem cstr_append {text : Bytes} (solid : 0 ∉ text) (rest : Bytes) : cstr (text ++ rest) = text ++ cstr rest := by
  induction text with
  | nil => rfl
  | cons c text ih =>
    have nonzero : c ≠ 0 := fun zero => solid (by simp [zero])
    have later := ih fun among => solid (by simp [among])
    simpa [cstr, nonzero] using later

theorem cstr_solid (bytes : Bytes) : 0 ∉ cstr bytes := by
  intro among
  have nonzero := mem_takeWhile_imp among
  simp at nonzero

theorem cstr_terminated {text : Bytes} (solid : 0 ∉ text) (rest : Bytes) : cstr (text ++ 0 :: rest) = text := by
  rw [cstr_append solid]
  simp [cstr]

theorem cstr_split {bytes : Bytes} (short : (cstr bytes).length < bytes.length) :
    ∃ rest, bytes = cstr bytes ++ 0 :: rest := by
  induction bytes with
  | nil => exact absurd short (by simp [cstr])
  | cons c bytes ih =>
    by_cases zero : c = 0
    · exact ⟨bytes, by simp [cstr, zero]⟩
    have same : cstr (c :: bytes) = c :: cstr bytes := by simp [cstr, zero]
    rw [same] at short ⊢
    obtain ⟨rest, split⟩ := ih (by simpa using short)
    exact ⟨rest, congrArg (c :: ·) split⟩

theorem cstr_ends (bytes : Bytes) : ∃ rest, bytes ++ [0] = cstr bytes ++ 0 :: rest := by
  induction bytes with
  | nil => exact ⟨[], rfl⟩
  | cons c bytes ih =>
    by_cases zero : c = 0
    · exact ⟨bytes ++ [0], by simp [cstr, zero]⟩
    obtain ⟨rest, split⟩ := ih
    exact ⟨rest, by rw [cons_append, split]; simp [cstr, zero]⟩

theorem utStrstr_append {needle rest : Bytes} (named : needle ≠ []) (digits : 48 ∉ needle) (solid : 0 ∉ needle ++ rest) :
    utStrstr (needle ++ rest) needle = some 0 := by
  rw [utStrstr, Util.utStrstr_eq solid (fun among => solid (mem_append_left _ among)) named, if_neg digits]
  cases needle with
  | nil => exact absurd rfl named
  | cons c needle => simp [findIdx?_cons]

end

section

def octValue (digits : Bytes) : Int := digits.foldl (fun value d => value * 8 + (d.toNat - 48)) 0

def octZeros (digits : Bytes) : Bytes := digits.map fun c => if c = blank then 48 else c

theorem octValue_snoc (digits : Bytes) (d : UInt8) : octValue (digits ++ [d]) = octValue digits * 8 + (d.toNat - 48) := by
  rw [octValue, foldl_append]
  rfl

theorem length_octDigits (slots : Nat) (value : Int) : (octDigits slots value).length = slots := by
  induction slots generalizing value with
  | zero => rfl
  | succ slots ih =>
    rw [octDigits, length_append, length_singleton]
    split_ifs
    · rw [length_replicate]
    · rw [ih]

theorem octDigit {value : Int} (low : 0 ≤ value) (high : value < 8) :
    (UInt8.ofNat (48 + value.toNat)).toNat = 48 + value.toNat := by
  rw [UInt8.toNat_ofNat']
  omega

theorem isodigit_iff (d : UInt8) : isodigit d = true ↔ 48 ≤ d.toNat ∧ d.toNat ≤ 55 := by
  simp [isodigit, UInt8.le_iff_toNat_le]

theorem octDigits_split {slots : Nat} {value : Int} (positive : 0 < slots) (low : 0 ≤ value) (high : value < 8 ^ slots) :
    ∃ k digits, octDigits slots value = List.replicate k blank ++ digits ∧ digits ≠ [] ∧
      (∀ d ∈ digits, isodigit d = true) ∧ octValue digits = value := by
  induction slots generalizing value with
  | zero => exact absurd positive (Nat.lt_irrefl 0)
  | succ slots ih =>
    have digit := octDigit (Int.emod_nonneg value (by decide)) (Int.emod_lt_of_pos value (by decide : (0 : Int) < 8))
    rw [octDigits]
    generalize UInt8.ofNat (48 + (value % 8).toNat) = d at *
    have octal : isodigit d = true := (isodigit_iff d).2 (by omega)
    split_ifs with first
    · refine ⟨slots, [d], rfl, by simp, by simpa using octal, ?_⟩
      rw [← nil_append [d], octValue_snoc]
      simp only [octValue, foldl_nil]
      omega
    rw [pow_succ] at high
    have more : slots ≠ 0 := by
      rintro rfl
      omega
    obtain ⟨k, digits, split, -, all, reads⟩ := ih (Nat.pos_of_ne_zero more) (by omega) (by omega : value / 8 < 8 ^ slots)
    refine ⟨k, digits ++ [d], by rw [split, append_assoc], by simp, ?_, by rw [octValue_snoc]; omega⟩
    simpa [octal, or_imp, forall_and] using all

theorem fromOct_digits {k : Nat} {digits rest : Bytes} {c : UInt8} (nonempty : digits ≠ [])
    (all : ∀ d ∈ digits, isodigit d = true) (ends : c = 0 ∨ c = blank) :
    fromOct (List.replicate k blank ++ digits ++ c :: rest) = octValue digits := by
  have last : isodigit c = false := by rcases ends with rfl | rfl <;> rfl
  have taken : (digits ++ c :: rest).takeWhile isodigit = digits := by
    rw [takeWhile_append_of_pos all, takeWhile_cons_of_neg (by simp [last]), append_nil]
  have kept : (List.replicate k blank ++ digits ++ c :: rest).dropWhile (· == blank) = digits ++ c :: rest := by
    cases digits with
    | nil => exact absurd rfl nonempty
    | cons d digits =>
      have other : d ≠ blank := by
        rintro rfl
        exact absurd (all blank (by simp)) (by decide)
      simp [other]
  rw [fromOct, kept]
  cases digits with
  | nil => exact absurd rfl nonempty
  | cons d digits =>
    have after : ((d :: digits) ++ c :: rest).drop (d :: digits).length = c :: rest := drop_left
    simp only [cons_append] at taken after ⊢
    simp only [taken, after]
    exact if_pos ends

theorem sizeField_eq (value : Int) : sizeField value = octZeros (octDigits 11 value) ++ [0] := by
  rw [sizeField, toOct, take_left' (length_octDigits _ _)]
  rfl

theorem length_sizeField (value : Int) : (sizeField value).length = 12 := by
  rw [sizeField_eq, length_append, octZeros, length_map, length_octDigits]
  rfl

theorem length_toOct (value : Int) (digs : Nat) : (toOct value digs).length = digs - 2 + 1 := by
  rw [toOct, length_append, length_octDigits]
  rfl

theorem octValue_zeros (k : Nat) (digits : Bytes) : octValue (List.replicate k 48 ++ digits) = octValue digits := by
  induction k with
  | zero => rfl
  | succ k ih => exact ih

theorem fromOct_sizeField {value : Nat} (small : value < 8 ^ 11) : fromOct (sizeField value) = value := by
  obtain ⟨k, digits, split, long, all, reads⟩ := octDigits_split (by decide : 0 < 11) (Int.natCast_nonneg value)
    (by exact_mod_cast small)
  have plain : octZeros digits = digits := by
    refine (map_congr_left fun d among => if_neg ?_).trans (map_id _)
    rintro rfl
    exact absurd (all blank among) (by decide)
  rw [sizeField_eq, split, octZeros, map_append, ← octZeros, ← octZeros, plain, ← reads, ← octValue_zeros k]
  rw [octZeros, map_replicate]
  refine fromOct_digits (k := 0) (by simp [long]) (fun d among => ?_) (.inl rfl)
  rcases mem_append.1 among with zero | digit
  · rw [eq_of_mem_replicate zero]
    rfl
  · exact all d digit

theorem sum_bytes_le (bytes : Bytes) : (bytes.map UInt8.toNat).sum ≤ 255 * bytes.length := by
  induction bytes with
  | nil => rfl
  | cons c bytes ih =>
    have byte := c.toNat_lt
    simp only [map_cons, sum_cons, length_cons]
    omega

theorem fromOct_toOct {digs : Nat} {value : Int} (last : UInt8) (enough : 3 ≤ digs) (low : 0 ≤ value)
    (high : value < 8 ^ (digs - 2)) : fromOct (toOct value digs ++ [last]) = value := by
  obtain ⟨k, digits, split, long, all, reads⟩ := octDigits_split (by omega : 0 < digs - 2) low high
  rw [toOct, split, append_assoc, ← reads]
  exact fromOct_digits long all (.inr rfl)

theorem fromOct_cksum {hdr : Bytes} (length : hdr.length = headerSize) :
    fromOct (field (computeCksum hdr) 148 8) = ((put hdr 148 (List.replicate 8 blank)).map UInt8.toNat).sum := by
  have blanked : (put hdr 148 (List.replicate 8 blank)).length = headerSize := by
    rw [length_put (by simp [length, headerSize]), length]
  have small := sum_bytes_le (put hdr 148 (List.replicate 8 blank))
  rw [computeCksum, take_of_length_le (le_of_eq blanked)]
  rw [blanked] at small
  generalize put hdr 148 (List.replicate 8 blank) = blanks at *
  generalize (blanks.map UInt8.toNat).sum = sum at *
  obtain ⟨k, digits, split, long, all, reads⟩ := octDigits_split (by decide : 0 < 6) (Int.natCast_nonneg sum)
    (by simp only [headerSize] at small; omega)
  have text : (toOct sum 8).take 6 = octDigits 6 sum := take_left' (length_octDigits 6 _)
  have fits : 148 + (toOct sum 8).length ≤ blanks.length := by
    rw [length_toOct, blanked]
    decide
  have kept : field (put blanks 148 (toOct sum 8)) 148 7 = toOct sum 8 :=
    (congrArg (field _ 148) (length_toOct _ 8).symm).trans (field_put fits)
  have written := (length_put fits).trans blanked
  generalize put blanks 148 (toOct sum 8) = c at *
  have front : field c 148 6 = octDigits 6 sum := by
    rw [← text, ← kept, field, field, take_take]
    rfl
  have cut : field (put c 154 [0]) 148 8 = field c 148 6 ++ 0 :: field c 155 1 := by
    simp [field, put, written, headerSize, drop_append, take_append, drop_take, take_take]
  rw [cut, front, split, ← reads]
  exact fromOct_digits long all (.inl rfl)

theorem octal_fields :
    (∀ (digs : Nat) (value : Int) (last : UInt8), 3 ≤ digs -> 0 ≤ value -> value < 8 ^ (digs - 2) ->
      fromOct (toOct value digs ++ [last]) = value) ∧
    ∀ hdr : Bytes, hdr.length = headerSize ->
      fromOct (field (computeCksum hdr) 148 8) = ((put hdr 148 (List.replicate 8 blank)).map UInt8.toNat).sum :=
  ⟨fun _ _ => fromOct_toOct, fun _ => fromOct_cksum⟩

theorem octal_fields_read : fromOct (toOct 0o644 8 ++ [0]) = 0o644 ∧
    fromOct (field (computeCksum (List.replicate headerSize 0)) 148 8) = 256 :=
  ⟨octal_fields.1 8 0o644 0 (by decide) (by decide) (by decide),
    (octal_fields.2 _ (length_replicate ..)).trans (by decide +kernel)⟩

end

variable {file : TarFile} {magic dummyPrefix hdr : Bytes}

def headerWrites (file : TarFile) (magic : Bytes) : List (Nat × Bytes) :=
  [(0, utStrcpy (file.name ++ file.archLinkname)), (156, [file.type]), (157, file.archLinkname), (369, toOct 0 12),
    (124, sizeField (toLong file.length)), (345, toOct (toLong file.atime) 12), (136, toOct (toLong file.mtime) 12),
    (357, toOct (toLong file.ctime) 12), (100, toOct (toLong file.mode) 8), (108, toOct 0 8), (116, toOct 0 8),
    (148, toOct 0 8), (329, toOct 0 8), (337, toOct 0 8), (257, magic)]

theorem fillHeader_eq (file : TarFile) (magic : Bytes) :
    fillHeader file magic = fill (List.replicate headerSize 0) (headerWrites file magic) := rfl

def cksumWrites (sum : Int) : List (Nat × Bytes) :=
  [(148, List.replicate 8 blank), (148, toOct sum 8), (154, [0])]

theorem computeCksum_eq (hdr : Bytes) : ∃ sum, computeCksum hdr = fill hdr (cksumWrites sum) := ⟨_, rfl⟩

def dummyWrites (file : TarFile) (dummyPrefix : Bytes) : List (Nat × Bytes) :=
  [(0, (dummyPrefix ++ [95] ++ decimal (toInt file.deviceOffset)).take (namsiz - 1) ++ [0]), (156, [lfNormal]),
    (124, sizeField (toLong (wrapSub file.dummyfileLen blkSize)))]

theorem dummyHeader_eq (file : TarFile) (hdr dummyPrefix : Bytes) :
    dummyHeader file hdr dummyPrefix = fill hdr (dummyWrites file dummyPrefix) := rfl

structure Named (file : TarFile) : Prop where
  short : file.str.length < namsiz
  named : file.str ≠ []
  link : file.archLinkname.length = namsiz

theorem utStrcpy_eq {bytes : Bytes} (named : cstr bytes ≠ []) : utStrcpy bytes = cstr bytes ++ [0] := by
  cases bytes with
  | nil => exact absurd rfl named
  | cons c rest =>
    have nonzero : c ≠ 0 := by
      rintro rfl
      exact named rfl
    obtain ⟨behind, split⟩ := cstr_ends rest
    rw [utStrcpy, Util.utStrcpy, cons_append, split, Util.copyLoop_none (cstr_solid _)]
    simp [cstr, nonzero]

theorem computeCksum_field (length : hdr.length = headerSize) {start len : Nat}
    (clear : start + len ≤ 148 ∨ 156 ≤ start) : field (computeCksum hdr) start len = field hdr start len := by
  obtain ⟨sum, same⟩ := computeCksum_eq hdr
  rw [same, field_fill_clear length]
  · simp [cksumWrites, Inside, length_toOct, headerSize]
  · simp only [cksumWrites, Clear, forall_mem_cons, length_toOct, length_replicate, length_singleton]
    simp only [not_mem_nil, false_imp_iff, implies_true, and_true]
    omega

theorem length_computeCksum (length : hdr.length = headerSize) : (computeCksum hdr).length = headerSize := by
  obtain ⟨sum, same⟩ := computeCksum_eq hdr
  rw [same, length_fill length]
  simp [cksumWrites, Inside, length_toOct, headerSize]

theorem starts_iff {text : Bytes} : field hdr 0 text.length = text ↔ ∃ rest, hdr = text ++ rest := by
  rw [field, drop_zero]
  constructor
  · intro same
    exact ⟨hdr.drop text.length, by rw [← take_append_drop text.length hdr, same, drop_left]⟩
  · rintro ⟨rest, rfl⟩
    exact take_left

theorem cstr_of_field {text : Bytes} (solid : 0 ∉ text) (name : field hdr 0 (text ++ [0]).length = text ++ [0]) :
    cstr hdr = text := by
  obtain ⟨rest, rfl⟩ := starts_iff.1 name
  rw [append_assoc]
  exact cstr_terminated solid rest

theorem getD_of_field {pos : Nat} {c : UInt8} (byte : field hdr pos 1 = [c]) : hdr.getD pos 0 = c := by
  have cell := congrArg (·[0]?) byte
  simp only [getElem?_field, Nat.zero_lt_one, if_true, Nat.add_zero, getElem?_cons_zero] at cell
  rw [getD_eq_getElem?_getD, cell, Option.getD_some]

theorem fillHeader_inside (named : Named file) (magicLength : magic.length = 8) :
    ∀ write ∈ headerWrites file magic, Inside headerSize write := by
  have name : (utStrcpy (file.name ++ file.archLinkname)).length ≤ namsiz := by
    rw [utStrcpy_eq named.named, length_append]
    exact named.short
  simp only [headerWrites, Inside, forall_mem_cons, length_toOct, length_sizeField, named.link, magicLength,
    headerSize, namsiz, length_singleton] at name ⊢
  simp
  omega

theorem toLong_nat {value : Nat} (small : value < 2 ^ 63) : toLong value = value := by
  exact Int.bmod_eq_of_le (by omega) (by omega)

structure Reads (hdr name : Bytes) (size : Nat) : Prop where
  length : hdr.length = headerSize
  name : cstr hdr = name
  size : fileSize hdr = size

section

variable (named : Named file) (magicLength : magic.length = 8)

include named magicLength

theorem headerWrites_clear : (∀ write ∈ (headerWrites file magic).drop 1, Clear 0 (file.str.length + 1) write) ∧
      (∀ write ∈ (headerWrites file magic).drop 5, Clear 124 12 write) ∧
      ∀ write ∈ (headerWrites file magic).drop 2, Clear 156 1 write := by
  have short := named.short
  simp only [headerWrites, Clear, drop_succ_cons, drop_zero, forall_mem_cons, length_toOct,
    length_sizeField, named.link, magicLength, namsiz, length_singleton] at short ⊢
  simp
  omega

theorem headerWrites_fields (length : hdr.length = headerSize) :
    (fill hdr (headerWrites file magic)).length = headerSize ∧
      field (fill hdr (headerWrites file magic)) 0 (file.str.length + 1) = file.str ++ [0] ∧
      field (fill hdr (headerWrites file magic)) 124 12 = sizeField (toLong file.length) ∧
      field (fill hdr (headerWrites file magic)) 156 1 = [file.type] := by
  have inside := fillHeader_inside named magicLength
  obtain ⟨clearName, clearSize, clearType⟩ := headerWrites_clear named magicLength
  have copied : utStrcpy (file.name ++ file.archLinkname) = file.str ++ [0] := utStrcpy_eq named.named
  have nameAt : (headerWrites file magic)[0]? = some (0, file.str ++ [0]) := by rw [← copied]; rfl
  have sizeAt : (headerWrites file magic)[4]? = some (124, sizeField (toLong file.length)) := rfl
  have typeAt : (headerWrites file magic)[1]? = some (156, [file.type]) := rfl
  have nameLength : (file.str ++ [0]).length = file.str.length + 1 := length_append
  have sizeLength := length_sizeField (toLong file.length)
  have name := field_fill length inside nameAt (by rw [nameLength]; exact clearName)
  have size := field_fill length inside sizeAt (by rw [sizeLength]; exact clearSize)
  rw [nameLength] at name
  rw [sizeLength] at size
  have type := field_fill length inside typeAt clearType
  exact ⟨length_fill length inside, name, size, type⟩

theorem storeToHeader_reads (small : file.length < 8 ^ 11) (dummyPrefix : Bytes) :
    Reads (storeToHeader file magic dummyPrefix).1 file.str file.length ∧
      (storeToHeader file magic dummyPrefix).1.getD 156 0 = file.type := by
  obtain ⟨filled, name, size, type⟩ := headerWrites_fields named magicLength (length_replicate (a := 0))
  have short := named.short
  simp only [storeToHeader]
  rw [← fillHeader_eq] at filled name size type
  refine ⟨⟨length_computeCksum filled, ?_, ?_⟩, ?_⟩
  · refine cstr_of_field (cstr_solid _) ?_
    rw [length_append, length_singleton]
    exact (computeCksum_field filled (.inl (by simp only [namsiz] at short; omega))).trans name
  · rw [fileSize, computeCksum_field filled (.inl (by decide)), size, toLong_nat (by omega), fromOct_sizeField small]
  · exact getD_of_field ((computeCksum_field filled (.inr (by decide))).trans type)

end

structure Marks (dummyPrefix : Bytes) : Prop where
  named : dummyPrefix ≠ []
  solid : 0 ∉ dummyPrefix
  digits : 48 ∉ dummyPrefix
  short : dummyPrefix.length < namsiz

theorem dummyWrites_inside (file : TarFile) (dummyPrefix : Bytes) :
    ∀ write ∈ dummyWrites file dummyPrefix, Inside headerSize write := by
  have name : ((dummyPrefix ++ [95] ++ decimal (toInt file.deviceOffset)).take (namsiz - 1)).length ≤ namsiz - 1 :=
    length_take_le _ _
  simp only [dummyWrites, Inside, forall_mem_cons, length_sizeField, length_append, length_singleton,
    namsiz, headerSize] at name ⊢
  simp only [not_mem_nil, false_imp_iff, implies_true, and_true]
  omega

theorem dummyWrites_fields (file : TarFile) (marks : Marks dummyPrefix) (length : hdr.length = headerSize) :
    (fill hdr (dummyWrites file dummyPrefix)).length = headerSize ∧
      (∃ rest, fill hdr (dummyWrites file dummyPrefix) = dummyPrefix ++ rest) ∧
      field (fill hdr (dummyWrites file dummyPrefix)) 124 12 =
        sizeField (toLong (wrapSub file.dummyfileLen blkSize)) := by
  have inside := dummyWrites_inside file dummyPrefix
  have sizeLength := length_sizeField (toLong (wrapSub file.dummyfileLen blkSize))
  have nameAt : (dummyWrites file dummyPrefix)[0]? = some (0,
    (dummyPrefix ++ [95] ++ decimal (toInt file.deviceOffset)).take (namsiz - 1) ++ [0]) := rfl
  have sizeAt : (dummyWrites file dummyPrefix)[2]? =
    some (124, sizeField (toLong (wrapSub file.dummyfileLen blkSize))) := rfl
  obtain ⟨more, text⟩ : ∃ more, (dummyPrefix ++ [95] ++ decimal (toInt file.deviceOffset)).take (namsiz - 1) =
      dummyPrefix ++ more := by
    have short := marks.short
    refine ⟨([95] ++ decimal (toInt file.deviceOffset)).take (namsiz - 1 - dummyPrefix.length), ?_⟩
    rw [append_assoc, take_append, take_of_length_le (by omega)]
  have textLength := text ▸ length_take_le _ _
  rw [text] at nameAt
  have name := field_fill length inside nameAt (by
    simp only [dummyWrites, Clear, Nat.zero_add, drop_succ_cons, drop_zero, forall_mem_cons,
      length_append, length_singleton, namsiz] at textLength ⊢
    simp only [not_mem_nil, false_imp_iff, implies_true, and_true]
    omega)
  have size := field_fill length inside sizeAt (by simp [dummyWrites])
  rw [sizeLength] at size
  refine ⟨length_fill length inside, ?_, size⟩
  obtain ⟨rest, starts⟩ := starts_iff.1 name
  exact ⟨more ++ [0] ++ rest, by rw [starts]; simp⟩

theorem storeToHeader_dummy (named : Named file) (magicLength : magic.length = 8) (marks : Marks dummyPrefix)
    (room : blkSize ≤ file.dummyfileLen) (small : file.dummyfileLen < 8 ^ 11) :
    (storeToHeader file magic dummyPrefix).2.length = headerSize ∧
      (storeToHeader file magic dummyPrefix).2.getD 0 0 ≠ 0 ∧
      (utStrstr (cstr (storeToHeader file magic dummyPrefix).2) dummyPrefix).isSome = true ∧
      fileSize (storeToHeader file magic dummyPrefix).2 = (file.dummyfileLen - blkSize : Nat) := by
  obtain ⟨filled, -⟩ := headerWrites_fields named magicLength (length_replicate (a := 0))
  rw [← fillHeader_eq] at filled
  obtain ⟨length, ⟨rest, starts⟩, size⟩ := dummyWrites_fields file marks filled
  simp only [storeToHeader]
  rw [← dummyHeader_eq] at length starts size
  have short := marks.short
  have name := starts_iff.2 ⟨rest, starts⟩
  rw [← computeCksum_field length (.inl (by simp only [namsiz] at short; omega))] at name
  obtain ⟨rest', starts'⟩ := starts_iff.1 name
  refine ⟨length_computeCksum length, ?_, ?_, ?_⟩
  · rw [starts']
    cases text : dummyPrefix with
    | nil => exact absurd text marks.named
    | cons c text => exact fun zero => marks.solid (by simp_all)
  · have solid := cstr_solid (dummyPrefix ++ rest')
    rw [cstr_append marks.solid] at solid
    rw [starts', cstr_append marks.solid, utStrstr_append marks.named marks.digits solid]
    rfl
  · rw [fileSize, computeCksum_field length (.inl (by decide)), size, wrapSub_eq room (by omega), toLong_nat (by omega),
      fromOct_sizeField (by omega)]

end JinyKernel.Tarfs
