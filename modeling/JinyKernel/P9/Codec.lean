import Mathlib.Data.List.GetD
import Mathlib.Data.List.TakeWhile
import JinyKernel.P9.Model

namespace JinyKernel.P9

open List Words

def encode : Arg -> List UInt8
  | .number kind value => bytesOf kind.width value.toNat
  | .s text => bytesOf 2 text.length ++ text

def Arg.Plain : Arg -> Prop
  | .number _ _ => True
  | .s text => 0 ∉ text ∧ text.length < 2 ^ 16

structure Fcall.Sized (pdu : Fcall) : Prop where
  size : pdu.size < 2 ^ 64
  offset : pdu.offset < 2 ^ 64
  capacity : pdu.capacity < 2 ^ 64

section

variable {pdu : Fcall} {front back : List UInt8}

def Fcall.space (pdu : Fcall) : Nat := wrapSub pdu.capacity pdu.size

def Fcall.append (pdu : Fcall) (data : List UInt8) : Fcall :=
  { pdu with
    size := wrap (pdu.size + data.length)
    sdata := fun pos => if wrapSub pos pdu.size < data.length then data.getD (wrapSub pos pdu.size) 0 else pdu.sdata pos }

theorem Fcall.Sized.append (sized : pdu.Sized) (data : List UInt8) : (pdu.append data).Sized :=
  ⟨Nat.mod_lt _ (by decide), sized.offset, sized.capacity⟩

theorem wrapSub_wrap_add {left right n : Nat} (small : right < 2 ^ 64) (within : n ≤ wrapSub left right) :
    wrapSub left (wrap (right + n)) = wrapSub left right - n := by
  simp only [wrapSub, wrap] at *
  omega

theorem wrapSub_wrap_below {left right n : Nat} (small : right < 2 ^ 64) (short : wrapSub left right < n)
    (bound : n ≤ 2 ^ 64) : wrapSub left (wrap (right + n)) = wrapSub left right + 2 ^ 64 - n := by
  simp only [wrapSub, wrap] at *
  omega

theorem space_append (sized : pdu.Sized) (fits : front.length ≤ pdu.space) :
    (pdu.append front).space = pdu.space - front.length :=
  wrapSub_wrap_add sized.size fits

theorem append_append (sized : pdu.Sized) (fits : front.length + back.length ≤ pdu.space) :
    (pdu.append front).append back = pdu.append (front ++ back) := by
  have bound : pdu.space < 2 ^ 64 := Nat.mod_lt _ (by decide)
  have small := sized.size
  simp only [Fcall.append, Fcall.mk.injEq, true_and, length_append]
  constructor
  · simp only [wrap]
    omega
  funext pos
  change (if wrapSub pos (wrap (pdu.size + front.length)) < back.length then
      back.getD (wrapSub pos (wrap (pdu.size + front.length))) 0
    else if wrapSub pos pdu.size < front.length then front.getD (wrapSub pos pdu.size) 0 else pdu.sdata pos) = _
  by_cases inFront : wrapSub pos pdu.size < front.length
  · rw [wrapSub_wrap_below small inFront (by omega), if_neg (by omega), if_pos inFront, if_pos (by omega),
      getD_append _ _ _ _ inFront]
  have beyond := Nat.not_lt.1 inFront
  rw [wrapSub_wrap_add small beyond, if_neg inFront]
  by_cases inBack : wrapSub pos pdu.size < front.length + back.length
  · rw [if_pos (by omega), if_pos inBack, getD_append_right _ _ _ _ beyond]
  · rw [if_neg (by omega), if_neg inBack]

theorem pduWrite_fits {data : List UInt8} (fits : data.length ≤ pdu.space) :
    pduWrite pdu data data.length = (0, pdu.append data) := by
  rw [Fcall.space] at fits
  simp [pduWrite, if_neg (Nat.not_lt.2 fits), Fcall.append]

def Cut {Code : Type} [Zero Code] (out : Code × Fcall) : Prop := out.1 ≠ 0 ∧ out.2.space = 0 ∧ out.2.Sized

theorem pduWrite_short (sized : pdu.Sized) (data : List UInt8) {size : Nat} (short : pdu.space < size) :
    Cut (pduWrite pdu data size) := by
  rw [Fcall.space] at short
  simp only [Cut, pduWrite, if_pos short]
  refine ⟨by omega, ?_, Nat.mod_lt _ (by decide), sized.offset, sized.capacity⟩
  simp only [Fcall.space]
  rw [wrapSub_wrap_add sized.size (Nat.le_refl _), Nat.sub_self]

theorem writeNumber_fits (errcode : Int) (kind : Number) (value : Nat) (fits : kind.width ≤ pdu.space) :
    writeNumber pdu errcode kind value = (errcode, pdu.append (bytesOf kind.width value)) := by
  have length := length_bytesOf kind.width value
  have written := pduWrite_fits (by rw [length]; exact fits)
  rw [length] at written
  simp [writeNumber, written]

theorem Number.writeError_ne (kind : Number) : kind.writeError ≠ 0 := by cases kind <;> decide

theorem Number.width_pos (kind : Number) : 0 < kind.width := by cases kind <;> decide

theorem writeNumber_short (sized : pdu.Sized) (errcode : Int) (kind : Number) (value : Nat)
    (short : pdu.space < kind.width) : Cut (writeNumber pdu errcode kind value) := by
  obtain ⟨cut, rest⟩ := pduWrite_short sized (bytesOf kind.width value) short
  simp only [Cut, writeNumber, if_pos cut]
  exact ⟨kind.writeError_ne, rest⟩

theorem writeText_fits {text : List UInt8} (fits : text.length ≤ pdu.space) :
    writeText pdu text text.length = (0, pdu.append text) := by
  simp [writeText, pduWrite_fits fits]

theorem writeText_short (sized : pdu.Sized) {text : List UInt8} (short : pdu.space < text.length) :
    Cut (writeText pdu text text.length) := by
  obtain ⟨cut, rest⟩ := pduWrite_short sized text short
  simp only [Cut, writeText, if_pos cut]
  exact ⟨by simp, rest⟩

theorem strlen_plain {text : List UInt8} (plain : (Arg.s text).Plain) : strlen text % 2 ^ 16 = text.length := by
  obtain ⟨solid, short⟩ := plain
  have whole : text.takeWhile (· ≠ 0) = text := by
    rw [takeWhile_eq_self_iff]
    intro byte among
    have nonzero : byte ≠ 0 := fun zero => solid (zero ▸ among)
    simpa using nonzero
  rw [strlen, whole, Nat.mod_eq_of_lt short]

theorem length_encode_number (kind : Number) (value : BitVec (8 * kind.width)) :
    (encode (.number kind value)).length = kind.width :=
  length_bytesOf ..

theorem length_encode_s (text : List UInt8) : (encode (.s text)).length = 2 + text.length := by simp [encode]

theorem encode_pos (arg : Arg) : 0 < (encode arg).length := by
  cases arg with
  | number kind value =>
    rw [length_encode_number]
    exact kind.width_pos
  | s text =>
    rw [length_encode_s]
    omega

theorem writeArg_fits {arg : Arg} (plain : arg.Plain) (sized : pdu.Sized) (fits : (encode arg).length ≤ pdu.space) :
    writeArg pdu 0 arg = (0, pdu.append (encode arg)) := by
  cases arg with
  | number kind value =>
    rw [length_encode_number] at fits
    exact writeNumber_fits 0 kind value.toNat fits
  | s text =>
    rw [length_encode_s] at fits
    have header : writeNumber pdu 0 .w text.length = _ :=
      writeNumber_fits 0 .w text.length (by simp only [Number.width]; omega)
    have behind : text.length ≤ (pdu.append (bytesOf 2 text.length)).space := by
      rw [space_append sized (by rw [length_bytesOf]; omega), length_bytesOf]
      omega
    simp only [writeArg, strlen_plain plain, header, Number.width, ne_eq, not_true_eq_false, if_false]
    rw [writeText_fits behind, append_append sized (by rw [length_bytesOf]; exact fits), encode]

theorem writeArg_short {arg : Arg} (plain : arg.Plain) (sized : pdu.Sized) (errcode : Int)
    (short : pdu.space < (encode arg).length) : Cut (writeArg pdu errcode arg) := by
  cases arg with
  | number kind value =>
    rw [length_encode_number] at short
    exact writeNumber_short sized errcode kind value.toNat short
  | s text =>
    rw [length_encode_s] at short
    simp only [writeArg, strlen_plain plain]
    by_cases headed : 2 ≤ pdu.space
    · -- The length fits and the text does not.
      have header := writeNumber_fits 0 .w text.length headed
      have behind : (pdu.append (bytesOf 2 text.length)).space < text.length := by
        rw [space_append sized (by rw [length_bytesOf]; exact headed), length_bytesOf]
        omega
      rw [header]
      exact writeText_short (sized.append _) behind
    · have header := writeNumber_short sized 0 .w text.length (Nat.not_le.1 headed)
      rw [if_pos header.1]
      exact header

variable {args : List Arg} (plain : ∀ arg ∈ args, arg.Plain) (sized : pdu.Sized)

include plain sized

theorem writeArgs_full (full : pdu.space = 0) {errcode : Int} (failed : errcode ≠ 0) :
    (writeArgs (errcode, pdu) args).1 ≠ 0 := by
  induction args generalizing pdu errcode with
  | nil => exact failed
  | cons arg rest ih =>
    obtain ⟨again, still, sized'⟩ := writeArg_short (plain arg mem_cons_self) sized errcode
      (by rw [full]; exact encode_pos arg)
    exact ih (fun other among => plain other (mem_cons_of_mem _ among)) sized' still again

theorem writeArgs_fits (fits : (args.flatMap encode).length ≤ pdu.space) :
    writeArgs (0, pdu) args = (0, pdu.append (args.flatMap encode)) := by
  induction args generalizing pdu with
  | nil =>
    have same : pdu.append [] = pdu := by
      have small := sized.size
      simp only [Fcall.append, length_nil, Nat.add_zero, wrap, Nat.mod_eq_of_lt small, Nat.not_lt_zero, if_false]
    rw [flatMap_nil, same]
    rfl
  | cons arg rest ih =>
    rw [flatMap_cons, length_append] at fits
    have first := writeArg_fits (plain arg mem_cons_self) sized (by omega)
    have behind := space_append sized (by omega : (encode arg).length ≤ pdu.space)
    rw [writeArgs, first, ih (fun other among => plain other (mem_cons_of_mem _ among)) (sized.append _)
      (by omega), append_append sized fits, flatMap_cons]

theorem writeArgs_short (short : pdu.space < (args.flatMap encode).length) : (writeArgs (0, pdu) args).1 ≠ 0 := by
  induction args generalizing pdu with
  | nil => exact absurd short (Nat.not_lt_zero _)
  | cons arg rest ih =>
    have others : ∀ other ∈ rest, other.Plain := fun other among => plain other (mem_cons_of_mem _ among)
    rw [flatMap_cons, length_append] at short
    by_cases fits : (encode arg).length ≤ pdu.space
    · have first := writeArg_fits (plain arg mem_cons_self) sized fits
      rw [writeArgs, first]
      exact ih others (sized.append _) (by rw [space_append sized fits]; omega)
    · obtain ⟨failed, full, sized'⟩ := writeArg_short (plain arg mem_cons_self) sized 0 (Nat.not_le.1 fits)
      exact writeArgs_full others sized' full failed

end

section

variable {pdu : Fcall} {errcode : Int}

def Fcall.left (pdu : Fcall) : Nat := wrapSub pdu.size pdu.offset

def Fcall.skip (pdu : Fcall) (n : Nat) : Fcall := { pdu with offset := wrap (pdu.offset + n) }

theorem Fcall.Sized.skip (sized : pdu.Sized) (n : Nat) : (pdu.skip n).Sized :=
  ⟨sized.size, Nat.mod_lt _ (by decide), sized.capacity⟩

theorem left_skip (sized : pdu.Sized) {n : Nat} (within : n ≤ pdu.left) : (pdu.skip n).left = pdu.left - n :=
  wrapSub_wrap_add sized.offset within

theorem skip_skip (pdu : Fcall) (front back : Nat) : (pdu.skip front).skip back = pdu.skip (front + back) := by
  simp only [Fcall.skip, wrap, Fcall.mk.injEq, true_and, and_true]
  omega

def Fcall.Holds (pdu : Fcall) (message : List UInt8) : Prop :=
  ∀ k < pdu.left, k < message.length -> pdu.sdata (wrap (pdu.offset + k)) = message.getD k 0

theorem Fcall.Holds.front {front back : List UInt8} (holds : pdu.Holds (front ++ back)) : pdu.Holds front := by
  intro k within inside
  rw [holds k within (by rw [length_append]; omega), getD_append _ _ _ _ inside]

theorem Fcall.Holds.skip {front back : List UInt8} (sized : pdu.Sized) (holds : pdu.Holds (front ++ back))
    (fits : front.length ≤ pdu.left) : (pdu.skip front.length).Holds back := by
  intro k within inside
  rw [left_skip sized fits] at within
  have same : wrap (wrap (pdu.offset + front.length) + k) = wrap (pdu.offset + (front.length + k)) := by
    simp only [wrap]
    omega
  have cell := holds (front.length + k) (by omega) (by rw [length_append]; omega)
  rw [getD_append_right _ _ _ _ (Nat.le_add_right _ _), Nat.add_sub_cancel_left] at cell
  simpa only [Fcall.skip, same] using cell

theorem pduRead_fits {message : List UInt8} (holds : pdu.Holds message) (fits : message.length ≤ pdu.left) :
    pduRead pdu message.length = (0, message, pdu.skip message.length) := by
  have cells : ((List.range message.length).map fun k => pdu.sdata (wrap (pdu.offset + k))) = message := by
    apply ext_getElem
    · simp
    · intro k _ inside
      rw [getElem_map, getElem_range, holds k (by omega) inside, getD_eq_getElem _ _ inside]
  rw [Fcall.left] at fits
  simp [pduRead, if_neg (Nat.not_lt.2 fits), cells, Fcall.skip]

theorem pduRead_short (sized : pdu.Sized) {size : Nat} (short : pdu.left < size) :
    (pduRead pdu size).1 ≠ 0 ∧ (pduRead pdu size).2.2.left = 0 ∧ (pduRead pdu size).2.2.Sized := by
  have drained := left_skip sized (Nat.le_refl pdu.left)
  rw [Fcall.left] at short
  simp only [pduRead, if_pos short]
  exact ⟨by omega, drained.trans (Nat.sub_self _), sized.skip pdu.left⟩

theorem Number.readError_ne (kind : Number) : kind.readError ≠ 0 := by cases kind <;> decide

theorem readNumber_fits (errcode : Int) (kind : Number) {value : Nat} (small : value < 2 ^ (8 * kind.width))
    (holds : pdu.Holds (bytesOf kind.width value)) (fits : kind.width ≤ pdu.left) :
    readNumber pdu errcode kind = (errcode, some (BitVec.ofNat _ value), pdu.skip kind.width) := by
  have length := length_bytesOf kind.width value
  have got := pduRead_fits holds (by rw [length]; exact fits)
  have power : 256 ^ kind.width = 2 ^ (8 * kind.width) := by rw [Nat.pow_mul]
  rw [length] at got
  simp [readNumber, got, ofBytes_bytesOf, power, Nat.mod_eq_of_lt small]

structure Failed {Value : Type} (got : Int × Value × Fcall) : Prop where
  code : got.1 ≠ 0
  drained : got.2.2.left = 0
  sized : got.2.2.Sized

theorem Failed.other {Value Other : Type} {got : Int × Value × Fcall} (failed : Failed got) (value : Other) :
    Failed (got.1, value, got.2.2) :=
  { failed with }

theorem readNumber_short (sized : pdu.Sized) (errcode : Int) (kind : Number) (short : pdu.left < kind.width) :
    Failed (readNumber pdu errcode kind) := by
  obtain ⟨cut, drained, sized'⟩ := pduRead_short sized short
  rw [readNumber, if_pos cut]
  exact ⟨kind.readError_ne, drained, sized'⟩

theorem readText_short (sized : pdu.Sized) {len : Nat} (short : pdu.left < len) : Failed (readText pdu len) := by
  obtain ⟨cut, drained, sized'⟩ := pduRead_short sized short
  rw [readText, if_pos cut]
  have code : (-5 : Int) ≠ 0 := by decide
  exact ⟨code, drained, sized'⟩

theorem readField_number (errcode : Int) (kind : Number) (failed : Failed (readNumber pdu errcode kind)) :
    Failed (readField pdu errcode (.number kind)) := by
  exact failed.other _

theorem readField_unheaded (errcode : Int) (failed : Failed (readNumber pdu 0 .w)) :
    Failed (readField pdu errcode .s) := by
  rw [readField, if_pos failed.code]
  exact failed.other _

theorem readField_headed {text : List UInt8} (plain : (Arg.s text).Plain) (holds : pdu.Holds (encode (.s text)))
    (errcode : Int) (headed : 2 ≤ pdu.left) : readField pdu errcode .s = readText (pdu.skip 2) text.length := by
  have small : text.length < 2 ^ (8 * Number.w.width) := plain.2
  have header := readNumber_fits 0 .w small holds.front headed
  have size : (BitVec.ofNat (8 * Number.w.width) text.length).toNat = text.length := by
    rw [BitVec.toNat_ofNat, Nat.mod_eq_of_lt small]
  simp only [readField, header, ne_eq, not_true_eq_false, if_false, Option.getD_some, size]
  rfl

theorem readField_fits {arg : Arg} (plain : arg.Plain) (sized : pdu.Sized) (holds : pdu.Holds (encode arg))
    (fits : (encode arg).length ≤ pdu.left) :
    readField pdu 0 arg.field = (0, some arg, pdu.skip (encode arg).length) := by
  cases arg with
  | number kind value =>
    rw [length_encode_number] at fits ⊢
    have got := readNumber_fits 0 kind value.isLt holds fits
    simp [readField, Arg.field, got]
  | s text =>
    rw [length_encode_s] at fits ⊢
    have length := length_bytesOf 2 text.length
    have behind : (pdu.skip 2).Holds text := by
      exact holds.skip sized (by omega)
    have got := pduRead_fits behind (by rw [left_skip sized (by omega)]; omega)
    rw [Arg.field, readField_headed plain holds 0 (by omega), readText, got, skip_skip]
    rfl

theorem readField_short {arg : Arg} (plain : arg.Plain) (sized : pdu.Sized) (holds : pdu.Holds (encode arg))
    (errcode : Int) (short : pdu.left < (encode arg).length) : Failed (readField pdu errcode arg.field) := by
  cases arg with
  | number kind value =>
    rw [length_encode_number] at short
    exact readField_number errcode kind (readNumber_short sized errcode kind short)
  | s text =>
    rw [length_encode_s] at short
    rcases Nat.lt_or_ge pdu.left 2 with unheaded | headed
    · exact readField_unheaded errcode (readNumber_short sized 0 .w unheaded)
    have behind : (pdu.skip 2).left < text.length := by
      rw [left_skip sized headed]
      omega
    rw [Arg.field, readField_headed plain holds errcode headed]
    exact readText_short (sized.skip 2) behind

theorem readFields_drained (sized : pdu.Sized) (drained : pdu.left = 0) (failed : errcode ≠ 0)
    (values : List (Option Arg)) (fmt : List Field) : (readFields errcode values pdu fmt).1 ≠ 0 := by
  induction fmt generalizing pdu errcode values with
  | nil => exact failed
  | cons field rest ih =>
    have again : Failed (readField pdu errcode field) := by
      cases field with
      | number kind =>
        exact readField_number errcode kind
          (readNumber_short sized errcode kind (by rw [drained]; exact kind.width_pos))
      | s => exact readField_unheaded errcode (readNumber_short sized 0 .w (by rw [drained]; decide))
    exact ih again.sized again.drained again.code _

variable {args : List Arg} (plain : ∀ arg ∈ args, arg.Plain) (sized : pdu.Sized)
  (holds : pdu.Holds (args.flatMap encode))

include plain sized holds

theorem readFields_fits (fits : (args.flatMap encode).length ≤ pdu.left) (values : List (Option Arg)) :
    readFields 0 values pdu (args.map Arg.field) =
      (0, values ++ args.map some, pdu.skip (args.flatMap encode).length) := by
  induction args generalizing pdu values with
  | nil =>
    have small := sized.offset
    simp only [map_nil, readFields, append_nil, flatMap_nil, length_nil, Fcall.skip, Nat.add_zero,
      wrap, Nat.mod_eq_of_lt small]
  | cons arg rest ih =>
    rw [flatMap_cons] at holds fits
    rw [length_append] at fits
    have first := readField_fits (plain arg mem_cons_self) sized holds.front (by omega)
    have behind := left_skip sized (by omega : (encode arg).length ≤ pdu.left)
    have later := ih (fun other among => plain other (mem_cons_of_mem _ among)) (sized.skip _)
      (holds.skip sized (by omega)) (by omega) (values ++ [some arg])
    rw [map_cons, readFields, first, later, skip_skip]
    simp

theorem readFields_short (short : pdu.left < (args.flatMap encode).length) (values : List (Option Arg)) :
    (readFields 0 values pdu (args.map Arg.field)).1 ≠ 0 := by
  induction args generalizing pdu values with
  | nil => exact absurd short (Nat.not_lt_zero _)
  | cons arg rest ih =>
    rw [flatMap_cons] at holds short
    rw [length_append] at short
    rw [map_cons, readFields]
    by_cases fits : (encode arg).length ≤ pdu.left
    · have first := readField_fits (plain arg mem_cons_self) sized holds.front fits
      rw [first]
      exact ih (fun other among => plain other (mem_cons_of_mem _ among)) (sized.skip _) (holds.skip sized fits)
        (by rw [left_skip sized fits]; omega) _
    · have failed := readField_short (plain arg mem_cons_self) sized holds.front 0 (Nat.not_le.1 fits)
      exact readFields_drained failed.sized failed.drained failed.code _ _

end

def Fcall.reread (pdu : Fcall) (start n : Nat) : Fcall := { pdu with offset := start, size := wrap (start + n) }

theorem append_reread {pdu : Fcall} (sized : pdu.Sized) {data : List UInt8} (fits : data.length ≤ pdu.space) {n : Nat}
    (within : n ≤ data.length) : ((pdu.append data).reread pdu.size n).left = n ∧
      ((pdu.append data).reread pdu.size n).Holds data ∧ ((pdu.append data).reread pdu.size n).Sized := by
  have bound : pdu.space < 2 ^ 64 := Nat.mod_lt _ (by decide)
  have small := sized.size
  have back {k : Nat} (below : k < 2 ^ 64) : wrapSub (wrap (pdu.size + k)) pdu.size = k := by
    simp only [wrapSub, wrap]
    omega
  refine ⟨back (by omega), fun k _ inside => ?_, Nat.mod_lt _ (by decide), small, sized.capacity⟩
  simp only [Fcall.reread, Fcall.append]
  rw [back (by omega), if_pos inside]

theorem p9_pdu_round_trip {pdu : Fcall} (sized : pdu.Sized) {args : List Arg} (plain : ∀ arg ∈ args, arg.Plain) :
    ((p9PduWrite pdu args).1 = 0 ↔ (args.flatMap encode).length ≤ wrapSub pdu.capacity pdu.size) ∧
    ((p9PduWrite pdu args).1 = 0 ->
      (p9PduWrite pdu args).2.size = wrap (pdu.size + (args.flatMap encode).length) ∧
      p9PduRead { (p9PduWrite pdu args).2 with offset := pdu.size } (args.map Arg.field) =
        (0, args.map some, { (p9PduWrite pdu args).2 with offset := (p9PduWrite pdu args).2.size }) ∧
      ∀ n < (args.flatMap encode).length,
        (p9PduRead ((p9PduWrite pdu args).2.reread pdu.size n) (args.map Arg.field)).1 ≠ 0) := by
  have exactly : (p9PduWrite pdu args).1 = 0 ↔ (args.flatMap encode).length ≤ pdu.space := by
    constructor
    · intro wrote
      by_contra short
      exact writeArgs_short plain sized (Nat.not_le.1 short) wrote
    · intro fits
      rw [p9PduWrite, writeArgs_fits plain sized fits]
  refine ⟨exactly, fun wrote => ?_⟩
  have fits := exactly.1 wrote
  rw [p9PduWrite, writeArgs_fits plain sized fits]
  refine ⟨rfl, ?_, fun n within => ?_⟩
  · obtain ⟨left, holds, sized'⟩ := append_reread sized fits (Nat.le_refl _)
    exact readFields_fits plain sized' holds (Nat.le_of_eq left.symm) []
  · obtain ⟨left, holds, sized'⟩ := append_reread sized fits (Nat.le_of_lt within)
    exact readFields_short plain sized' holds (by rw [left]; exact within) []

theorem p9_pdu_round_trip_sample :
    ∃ pdu : Fcall, ∃ args : List Arg, pdu.Sized ∧ (∀ arg ∈ args, arg.Plain) ∧ args.length = 2 ∧
      (p9PduWrite pdu args).1 = 0 ∧ p9PduRead { (p9PduWrite pdu args).2 with offset := pdu.size } (args.map Arg.field) =
        (0, args.map some, { (p9PduWrite pdu args).2 with offset := (p9PduWrite pdu args).2.size }) := by
  have sized : Fcall.Sized ⟨7, 0, 64, fun _ => 0⟩ := ⟨by decide, by decide, by decide⟩
  have plain : ∀ arg ∈ [Arg.number .b 5, Arg.s [97, 98]], arg.Plain := by
    intro arg among
    rcases mem_cons.1 among with rfl | later
    · trivial
    · rw [mem_singleton.1 later]
      exact ⟨by decide, by decide⟩
  have round := p9_pdu_round_trip sized plain
  have wrote := round.1.2 (by decide)
  exact ⟨_, _, sized, plain, rfl, wrote, (round.2 wrote).2.1⟩

end JinyKernel.P9
