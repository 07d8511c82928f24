import JinyKernel.Machine
import JinyKernel.Shared.Memory

-- drivers/virtio/9p/p9.cc: `size_t` values and indices into `sdata` wrap at `2 ^ 64`.

namespace JinyKernel.P9

structure Fcall where
  size : Nat
  offset : Nat
  capacity : Nat
  sdata : Nat -> UInt8

variable (pdu : Fcall)

def pduRead (size : Nat) : Nat × List UInt8 × Fcall :=
  let len := if wrapSub pdu.size pdu.offset < size then wrapSub pdu.size pdu.offset else size
  (size - len, (List.range len).map fun k => pdu.sdata (wrap (pdu.offset + k)),
    { pdu with offset := wrap (pdu.offset + len) })

def pduWrite (data : List UInt8) (size : Nat) : Nat × Fcall :=
  let len := if wrapSub pdu.capacity pdu.size < size then wrapSub pdu.capacity pdu.size else size
  (size - len, { pdu with
    size := wrap (pdu.size + len)
    sdata := fun pos => if wrapSub pos pdu.size < len then data.getD (wrapSub pos pdu.size) 0 else pdu.sdata pos })

inductive Number where
  | b
  | w
  | d
  | q

def Number.width : Number -> Nat
  | .b => 1
  | .w => 2
  | .d => 4
  | .q => 8

inductive Field where
  | number (kind : Number)
  | s

inductive Arg where
  | number (kind : Number) (value : BitVec (8 * kind.width))
  | s (text : List UInt8)

def Arg.field : Arg -> Field
  | .number kind _ => .number kind
  | .s _ => .s

section

def Number.writeError : Number -> Int
  | .b => -1
  | .w => -2
  | .d => -3
  | .q => -3

def writeNumber (errcode : Int) (kind : Number) (value : Nat) : Int × Fcall :=
  let written := pduWrite pdu (Words.bytesOf kind.width value) kind.width
  (if written.1 ≠ 0 then kind.writeError else errcode, written.2)

def strlen (text : List UInt8) : Nat := (text.takeWhile (· ≠ 0)).length

def writeText (text : List UInt8) (len : Nat) : Int × Fcall :=
  let written := pduWrite pdu text len
  (if written.1 ≠ 0 then -1 else 0, written.2)

def writeArg (errcode : Int) : Arg -> Int × Fcall
  | .number kind value => writeNumber pdu errcode kind value.toNat
  | .s text =>
    let len := strlen text % 2 ^ 16
    -- The code of the field before is overwritten here.
    let header := writeNumber pdu 0 .w len
    if header.1 ≠ 0 then header else writeText header.2 text len

def writeArgs : Int × Fcall -> List Arg -> Int × Fcall
  | result, [] => result
  | result, arg :: rest => writeArgs (writeArg result.2 result.1 arg) rest

def p9PduWrite (args : List Arg) : Int × Fcall := writeArgs (0, pdu) args

end

def Number.readError : Number -> Int
  | .b => -1
  | .w => -2
  | .d => -3
  | .q => -6

def readNumber (errcode : Int) (kind : Number) : Int × Option (BitVec (8 * kind.width)) × Fcall :=
  let got := pduRead pdu kind.width
  if got.1 ≠ 0 then (kind.readError, none, got.2.2)
  else (errcode, some (BitVec.ofNat _ (Words.ofBytes got.2.1)), got.2.2)

def readText (len : Nat) : Int × Option Arg × Fcall :=
  let got := pduRead pdu len
  if got.1 ≠ 0 then (-5, none, got.2.2) else (0, some (.s got.2.1), got.2.2)

def readField (errcode : Int) : Field -> Int × Option Arg × Fcall
  | .number kind =>
    let got := readNumber pdu errcode kind
    (got.1, got.2.1.map (.number kind), got.2.2)
  | .s =>
    let header := readNumber pdu 0 .w
    if header.1 ≠ 0 then (header.1, none, header.2.2) else readText header.2.2 (header.2.1.getD 0).toNat

def readFields : Int -> List (Option Arg) -> Fcall -> List Field -> Int × List (Option Arg) × Fcall
  | errcode, values, pdu, [] => (errcode, values, pdu)
  | errcode, values, pdu, field :: rest =>
    let got := readField pdu errcode field
    readFields got.1 (values ++ [got.2.1]) got.2.2 rest

def p9PduRead (fmt : List Field) : Int × List (Option Arg) × Fcall := readFields 0 [] pdu fmt

end JinyKernel.P9
