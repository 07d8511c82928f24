import JinyKernel.Buddy.Run
import Mathlib.Data.Nat.Size

-- mm/jslab.c: bits 0 to 63 are the bitmap, and object `k` begins at bit `64 + 8 * k * obj_size`; `none` is `BUG()`.

namespace JinyKernel.Slab

def jslabMagic : Nat := 0xabcdef12345678
def headerSize : Nat := 32
def bitmapBits : Nat := 64

structure Frame where
  slab : Bool
  largePage : Bool
  fsInode : Nat
  magic0 : Nat
  magic1 : Nat
  cachep : Nat
  bits : Nat -> Bool

structure Jcache where
  partialList : List Nat
  fullList : List Nat
  objSize : Nat
  flags : Nat
  pageOrder : Nat
  maxObjPerSlab : Nat
  statTotalObjs : Int
  statTotalPages : Int
  statAllocs : Int
  statFrees : Int

structure Slabs where
  buddy : Buddy.State
  frame : Nat -> Frame
  cachep : Nat
  cache : Jcache

variable (bits : Nat -> Bool)

-- Whole double words are looked at; their number of bits means that all are set.
def findFirstZeroBit (size : Nat) : Nat :=
  let limit := (size + 31) / 32 * 32
  ((List.range limit).find? fun i => !bits i).getD limit

def logN (n : Nat) : Nat := n.size - 1

-- The `flags` word is kept. A size that does not fit fails an assertion, and a size of 0 divides by it.
def createJcache (objSize flags : Nat) : Option Jcache :=
  let made (pageOrder maxObjSpace : Nat) : Jcache :=
    { partialList := []
      fullList := []
      objSize := objSize
      flags := flags
      pageOrder := pageOrder
      maxObjPerSlab := maxObjSpace / objSize
      statTotalObjs := 0
      statTotalPages := 0
      statAllocs := 0
      statFrees := 0 }
  if pageSize ≤ objSize then some (made (logN (objSize / pageSize)) objSize)
  else if pageSize - headerSize < objSize ∨ objSize = 0 then none
  else some (made 0 (pageSize - headerSize))

def mapFrames (frames : Nat -> Frame) (frame order : Nat) (f : Frame -> Frame) : Nat -> Frame := fun other =>
  if frame ≤ other ∧ other < frame + 2 ^ order then f (frames other) else frames other

def emptyBitmap : Bool := (List.range bitmapBits).all fun i => !bits i

def sanityCheck (frame : Frame) (cachep : Nat) : Bool :=
  decide (0x100000 < cachep) && decide (frame.magic1 = jslabMagic) && decide (frame.magic0 = jslabMagic)

def attachSlab (page : Frame) (cachep : Nat) : Frame :=
  { page with
    magic0 := jslabMagic
    magic1 := jslabMagic
    cachep := cachep
    bits := fun i => if i < bitmapBits then false else page.bits i }

variable (s : Slabs)

def getpages : Option (Nat × Slabs) := do
  let (addr, buddy) ← Buddy.takePages s.buddy s.cache.flags s.cache.pageOrder
  if addr = 0 then some (0, { s with buddy := buddy })
  else
    let frame := mapNr addr
    let attached := Function.update s.frame frame (attachSlab (s.frame frame) s.cachep)
    some (addr, { s with
      buddy := buddy
      frame := mapFrames attached frame s.cache.pageOrder fun page => { page with slab := true }
      cache := { s.cache with
        partialList := frame :: s.cache.partialList
        statTotalPages := s.cache.statTotalPages + 2 ^ s.cache.pageOrder } })

def freepages (frame : Nat) : Option Slabs := do
  guard (emptyBitmap (s.frame frame).bits)
  guard ((List.range (2 ^ s.cache.pageOrder)).all fun i => (s.frame (frame + i)).slab)
  let buddy ← Buddy.givePages s.buddy (address frame) s.cache.pageOrder
  some { s with
    buddy := buddy
    frame := mapFrames s.frame frame s.cache.pageOrder fun page => { page with slab := false }
    cache := { s.cache with
      partialList := s.cache.partialList.erase frame
      fullList := s.cache.fullList.erase frame
      statTotalPages := s.cache.statTotalPages - 2 ^ s.cache.pageOrder } }

def allocLarge : Option (Nat × Slabs) := do
  let (addr, buddy) ← Buddy.takePages s.buddy 0 s.cache.pageOrder
  if addr = 0 then some (0, { s with buddy := buddy })
  else some (addr, { s with
    buddy := buddy
    frame := mapFrames s.frame (mapNr (pageMask addr)) s.cache.pageOrder fun page =>
      { page with largePage := true, slab := true, fsInode := s.cachep }
    cache := { s.cache with
      statAllocs := s.cache.statAllocs + 1
      statTotalObjs := s.cache.statTotalObjs + 1 } })

def clearObject (index objSize : Nat) : Nat -> Bool := fun i =>
  if bitmapBits + 8 * (index * objSize) ≤ i ∧ i < bitmapBits + 8 * ((index + 1) * objSize) then false else bits i

def allocFrom (frame : Nat) (rest : List Nat) : Option (Nat × Slabs) := do
  let page := s.frame frame
  guard (sanityCheck page s.cachep)
  let index := findFirstZeroBit page.bits bitmapBits
  let taken := Function.update page.bits index true
  let full := decide (s.cache.maxObjPerSlab < findFirstZeroBit taken bitmapBits + 1)
  some (address frame + headerSize + index * s.cache.objSize, { s with
    frame := Function.update s.frame frame { page with bits := clearObject taken index s.cache.objSize }
    cache := { s.cache with
      partialList := if full then rest else s.cache.partialList
      fullList := if full then frame :: s.cache.fullList else s.cache.fullList
      statTotalObjs := s.cache.statTotalObjs + 1
      statAllocs := s.cache.statAllocs + 1 } })

def allocObj : Option (Nat × Slabs) :=
  if pageSize ≤ s.cache.objSize then allocLarge s
  else do
    let ready ←
      match s.cache.partialList with
      | [] => (getpages s).map Prod.snd
      | _ :: _ => some s
    match ready.cache.partialList with
    | [] => some (0, ready)
    | frame :: rest => allocFrom ready frame rest

def freeLarge (addr : Nat) : Option Slabs := do
  let frame := mapNr (pageMask addr)
  -- The cache is the one the page names; this model has one cache.
  guard ((s.frame frame).fsInode = s.cachep)
  guard ((List.range (2 ^ s.cache.pageOrder)).all fun i => (s.frame (frame + i)).fsInode != 0)
  let buddy ← Buddy.givePages s.buddy addr s.cache.pageOrder
  some { s with
    buddy := buddy
    frame := mapFrames s.frame frame s.cache.pageOrder fun page =>
      { page with largePage := false, slab := false, fsInode := 0 }
    cache := { s.cache with
      statFrees := s.cache.statFrees + 1
      statTotalObjs := s.cache.statTotalObjs - 1 } }

def objIndex (addr : Nat) : Int :=
  toInt (wrapSub (addr - pageMask addr) headerSize / s.cache.objSize : Nat)

def freeSmall (addr : Nat) : Option Slabs := do
  let frame := mapNr (pageMask addr)
  let page := s.frame frame
  guard (page.cachep = s.cachep)
  guard (sanityCheck page page.cachep)
  -- A pointer into the header would test a bit before the bitmap.
  guard (0 ≤ objIndex s addr ∧ objIndex s addr < bitmapBits)
  guard (page.bits (objIndex s addr).toNat)
  let bits := Function.update page.bits (objIndex s addr).toNat false
  let cleared := { s with frame := Function.update s.frame frame { page with bits := bits } }
  let freed ← if emptyBitmap bits then freepages cleared frame else some cleared
  some { freed with cache := { freed.cache with
    statTotalObjs := freed.cache.statTotalObjs - 1
    statFrees := freed.cache.statFrees + 1 } }

def freeObj (addr : Nat) : Option Slabs := do
  guard (s.frame (mapNr (pageMask addr))).slab
  if (s.frame (mapNr (pageMask addr))).largePage then freeLarge s addr else freeSmall s addr

end JinyKernel.Slab
