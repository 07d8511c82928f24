import JinyKernel.Machine
import JinyKernel.Util.Strings

-- Tar headers (fs/tar_fs.cc): strings are the bytes before the first NUL.

namespace JinyKernel.Tarfs

abbrev Bytes := List UInt8

def blkSize : Nat := 512
def namsiz : Nat := 100
def headerSize : Nat := 495

def lfNormal : UInt8 := 48
def lfLink : UInt8 := 49
def lfDir : UInt8 := 53

def blank : UInt8 := 32
def slash : UInt8 := 47

variable (bytes : Bytes)

def cstr : Bytes := bytes.takeWhile (· != 0)

def utStrstr (text needle : Bytes) : Option Nat := (Util.utStrstr (text ++ [0]) (needle ++ [0])).join

def utStrcpy (src : Bytes) : Bytes := (Util.utStrcpy (src ++ [0])).getD [0]

def field (pos len : Nat) : Bytes := (bytes.drop pos).take len

def put (pos : Nat) (data : Bytes) : Bytes :=
  bytes.take pos ++ data ++ bytes.drop (pos + data.length)

-- `to_oct`: blanks, at least one digit, a blank; the last byte of the field is left.
def octDigits : Nat -> Int -> Bytes
  | 0, _ => []
  | slots + 1, value =>
    (if value / 8 = 0 then List.replicate slots blank else octDigits slots (value / 8)) ++
      [UInt8.ofNat (48 + (value % 8).toNat)]

def toOct (value : Int) (digs : Nat) : Bytes := octDigits (digs - 2) value ++ [blank]

def isodigit (c : UInt8) : Bool := decide (48 ≤ c) && decide (c ≤ 55)

-- `from_oct` on a field: -1 when it is blank or does not end in a blank or a NUL.
def fromOct : Int :=
  match bytes.dropWhile (· == blank) with
  | [] => -1
  | rest =>
    let digits := rest.takeWhile isodigit
    match rest.drop digits.length with
    | c :: _ => if c = 0 ∨ c = blank then digits.foldl (fun value d => value * 8 + (d.toNat - 48)) 0 else -1
    | [] => digits.foldl (fun value d => value * 8 + (d.toNat - 48)) 0

def decimal (value : Int) : Bytes :=
  let digits := (Nat.toDigits 10 value.natAbs).map fun c => UInt8.ofNat c.toNat
  if value < 0 then 45 :: digits else digits

def computeCksum (hdr : Bytes) : Bytes :=
  let blanks := put hdr 148 (List.replicate 8 blank)
  let sum := ((blanks.take headerSize).map UInt8.toNat).sum
  put (put blanks 148 (toOct sum 8)) 154 [0]

def sizeField (value : Int) : Bytes :=
  ((toOct value 13).take 11).map (fun c => if c = blank then 48 else c) ++ [0]

structure TarFile where
  name : Bytes
  archLinkname : Bytes
  length : Nat
  mtime : Nat
  ctime : Nat
  atime : Nat
  mode : Nat
  deviceOffset : Nat
  type : UInt8
  linkId : Int
  parent : Int
  metadataDirty : Bool
  dummyFile : Bool
  regularFile : Bool
  specialFile : Bool
  dummyfileLen : Nat

variable (file : TarFile)

def TarFile.str : Bytes := cstr (file.name ++ file.archLinkname)

def toLong (value : Nat) : Int := Int.bmod value (2 ^ 64)

def fillHeader (magic : Bytes) : Bytes :=
  let hdr := List.replicate headerSize 0
  let hdr := put hdr 0 (utStrcpy (file.name ++ file.archLinkname))
  let hdr := put hdr 156 [file.type]
  let hdr := put hdr 157 file.archLinkname
  let hdr := put hdr 369 (toOct 0 12)
  let hdr := put hdr 124 (sizeField (toLong file.length))
  let hdr := put hdr 345 (toOct (toLong file.atime) 12)
  let hdr := put hdr 136 (toOct (toLong file.mtime) 12)
  let hdr := put hdr 357 (toOct (toLong file.ctime) 12)
  let hdr := put hdr 100 (toOct (toLong file.mode) 8)
  let hdr := put hdr 108 (toOct 0 8)
  let hdr := put hdr 116 (toOct 0 8)
  let hdr := put hdr 148 (toOct 0 8)
  let hdr := put hdr 329 (toOct 0 8)
  let hdr := put hdr 337 (toOct 0 8)
  put hdr 257 magic

def dummyHeader (hdr dummyPrefix : Bytes) : Bytes :=
  let text := dummyPrefix ++ [95] ++ decimal (toInt file.deviceOffset)
  let hdr := put hdr 0 (text.take (namsiz - 1) ++ [0])
  let hdr := put hdr 156 [lfNormal]
  put hdr 124 (sizeField (toLong (wrapSub file.dummyfileLen blkSize)))

def storeToHeader (magic dummyPrefix : Bytes) : Bytes × Bytes :=
  let hdr := fillHeader file magic
  (computeCksum hdr, computeCksum (dummyHeader file hdr dummyPrefix))

end JinyKernel.Tarfs
