import JinyKernel.Buddy.Tags

-- mm/jslab.c: a `page_bucket` is its index, its stack a list, top first; `none` is `BUG()`.

namespace JinyKernel.Netbuf

open Buddy

def memClear : Nat := 0x8000000
def memNetbuf : Nat := 0x0200000

def maxStackSize : Nat := 1000
def maxPagesPerCpuCache : Nat := 5000
def maxZerolistSize : Nat := 40000

def isSet (flags flag : Nat) : Bool := flags &&& flag != 0

structure Config where
  percpuPagecache : Bool
  zeropageCache : Bool

structure PercpuPagecache where
  inuse : Bool
  bucket : Option Nat
  count : Nat

structure Buckets where
  stack : Nat -> List Nat
  emptyBuckets : List Nat
  fullBuckets : List Nat
  pageCache : Nat -> PercpuPagecache

structure ZeropageCache where
  dirtypagesList : List Nat
  cleanpagesList : List Nat

-- `refs` counts the callers' references to each block.
structure State where
  buddy : Buddy.State
  buckets : Buckets
  zeropage : ZeropageCache
  refs : Nat -> Nat

def maxBuckets (maxCpus : Nat) : Nat := maxCpus + 54

variable (buckets : Buckets)

def assignBucket (cpu : Nat) : Buckets :=
  match buckets.emptyBuckets with
  | [] => buckets
  | first :: rest =>
    { buckets with
      emptyBuckets := rest
      pageCache := Function.update buckets.pageCache cpu { buckets.pageCache cpu with bucket := some first } }

def initPercpuPageCache (maxCpus : Nat) : Buckets :=
  -- every bucket is pushed onto the empty list, the last one ends on top
  let linked : Buckets :=
    { stack := fun _ => []
      emptyBuckets := (List.range (maxBuckets maxCpus)).reverse
      fullBuckets := []
      pageCache := fun _ => ⟨false, none, 0⟩ }
  (List.range maxCpus).foldl assignBucket linked

def getBucket (bucket : Nat) : Nat × Buckets :=
  if buckets.stack bucket = [] then
    match buckets.fullBuckets with
    | [] => (bucket, buckets)
    | first :: rest =>
      (first, { buckets with emptyBuckets := bucket :: buckets.emptyBuckets, fullBuckets := rest })
  else
    match buckets.emptyBuckets with
    | [] => (bucket, buckets)
    | first :: rest => (first, { buckets with fullBuckets := bucket :: buckets.fullBuckets, emptyBuckets := rest })

def Buckets.setCpu (cpu : Nat) (cache : PercpuPagecache) : Buckets :=
  { buckets with pageCache := Function.update buckets.pageCache cpu cache }

def Buckets.setStack (bucket : Nat) (stack : List Nat) : Buckets :=
  { buckets with stack := Function.update buckets.stack bucket stack }

def serving (cpu : Nat) (spent : List Nat -> Bool) : Option (Nat × Buckets) :=
  if (buckets.pageCache cpu).inuse then none
  else
    match (buckets.pageCache cpu).bucket with
    | none => none
    | some bucket =>
      if spent (buckets.stack bucket) then
        let (other, exchanged) := getBucket buckets bucket
        some (other, exchanged.setCpu cpu { exchanged.pageCache cpu with bucket := some other })
      else some (bucket, buckets)

def allocCached (cpu : Nat) : Option Nat × Buckets :=
  match serving buckets cpu (·.isEmpty) with
  | none => (none, buckets)
  | some (bucket, buckets) =>
    match buckets.stack bucket with
    | [] => (none, buckets)
    | top :: rest =>
      (some top, (buckets.setStack bucket rest).setCpu cpu
        { buckets.pageCache cpu with count := wrapSub (buckets.pageCache cpu).count 1 })

def freeCached (cpu p : Nat) : Bool × Buckets :=
  match serving buckets cpu (fun stack => decide (maxStackSize ≤ stack.length)) with
  | none => (false, buckets)
  | some (bucket, buckets) =>
    if (buckets.stack bucket).length < maxStackSize ∧ (buckets.pageCache cpu).count < maxPagesPerCpuCache then
      (true, (buckets.setStack bucket (p :: buckets.stack bucket)).setCpu cpu
        { buckets.pageCache cpu with count := wrap ((buckets.pageCache cpu).count + 1) })
    else (false, buckets)

def getFromZeropagecache (cache : ZeropageCache) (clearFlag : Nat) : Nat × ZeropageCache :=
  match isSet clearFlag memClear, cache.cleanpagesList, cache.dirtypagesList with
  | true, top :: rest, _ => (top, { cache with cleanpagesList := rest })
  | _, _, top :: rest => (top, { cache with dirtypagesList := rest })
  | _, _, [] => (0, cache)

def insertIntoZeropagecache (cache : ZeropageCache) (page flag : Nat) : Bool × ZeropageCache :=
  if isSet flag memClear ∧ cache.cleanpagesList.length < maxZerolistSize then
    (true, { cache with cleanpagesList := page :: cache.cleanpagesList })
  else if cache.dirtypagesList.length < maxZerolistSize then
    (true, { cache with dirtypagesList := page :: cache.dirtypagesList })
  else (false, cache)

variable (config : Config) (state : State)

def State.page (addr : Nat) : Page := state.buddy.mem.page (mapNr addr)

def State.writePage (addr : Nat) (page : Page) : State :=
  { state with buddy := state.buddy.writePage (mapNr addr) page }

def State.referred (p : Nat) : State :=
  { state with refs := Function.update state.refs p (state.refs p + 1) }

def State.dropped (p : Nat) : State :=
  { state with refs := Function.update state.refs p (state.refs p - 1) }

def allocFresh (flags : Nat) : Option (Nat × State) := do
  let (p, buddy) ← takePages state.buddy flags (if isSet flags memNetbuf then 2 else 0)
  let state := { state with buddy := buddy }
  if p = 0 then some (0, state)
  else if isSet flags memNetbuf then some (p, (state.writePage p { state.page p with netBuf := true }).referred p)
  else some (p, state.referred p)

def allocPast (flags : Nat) : Option (Nat × State) :=
  let (kept, zeropage) :=
    if config.zeropageCache then getFromZeropagecache state.zeropage flags else (0, state.zeropage)
  let state := { state with zeropage := zeropage }
  if kept ≠ 0 then some (kept, state.referred kept) else allocFresh state flags

def jallocPage (cpu flags : Nat) : Option (Nat × State) :=
  if ¬ isSet flags memClear ∧ config.percpuPagecache ∧ isSet flags memNetbuf then
    match allocCached state.buckets cpu with
    | (some p, buckets) => some (p, { state with buckets := buckets }.referred p)
    | (none, buckets) => allocPast config { state with buckets := buckets } flags
  else allocPast config state flags

def jpageDup (addr : Nat) : Bool × State :=
  let page := state.page addr
  if page.netBuf then
    (true, (state.writePage addr { page with count := toInt (page.count + 1) }).referred (pageMask addr))
  else (false, state)

def freeFresh (p : Nat) : Option State := do
  if (state.page p).netBuf then
    let state := state.writePage p { state.page p with netBuf := false }
    let buddy ← givePages state.buddy p 2
    some { state with buddy := buddy }
  else
    let buddy ← givePages state.buddy p 0
    some { state with buddy := buddy }

def freePast (p : Nat) : Option State :=
  let (kept, zeropage) :=
    if config.zeropageCache then insertIntoZeropagecache state.zeropage p 0 else (false, state.zeropage)
  let state := { state with zeropage := zeropage }
  if kept then some state else freeFresh state p

def freePage (cpu : Nat) (state : State) (buf : Nat) : Option State :=
  let p := pageMask buf
  let page := state.page p
  let state := state.dropped p
  if page.netBuf ∧ page.count > 1 then some (state.writePage p { page with count := toInt (page.count - 1) })
  else if config.percpuPagecache ∧ page.netBuf then
    match freeCached state.buckets cpu p with
    | (true, buckets) => some { state with buckets := buckets }
    | (false, buckets) => freePast config { state with buckets := buckets } p
  else freePast config state p

def bulkFreePages (cpu : Nat) (mbufs : List Nat) : Option State :=
  mbufs.foldlM (freePage config cpu) state

def jfreePage (cpu p : Nat) : Option State := bulkFreePages config state cpu [p]

-- A failed allocation leaves the address 0 on the list.
def housekeepLoop (state : State) : Nat -> Option State
  | 0 => some state
  | left + 1 =>
    if state.zeropage.cleanpagesList.length < maxZerolistSize then
      let (page, zeropage) := getFromZeropagecache state.zeropage 0
      if page ≠ 0 then
        housekeepLoop { state with zeropage := (insertIntoZeropagecache zeropage page memClear).2 } left
      else do
        let (page, buddy) ← takePages state.buddy memClear 0
        housekeepLoop
          { state with buddy := buddy, zeropage := (insertIntoZeropagecache zeropage page memClear).2 } left
    else some state

def housekeepZeropageCache : Option State :=
  if config.zeropageCache then housekeepLoop state 100 else some state

inductive Event where
  | jallocPage (cpu flags : Nat)
  | jpageDup (addr : Nat)
  | bulkFreePages (cpu : Nat) (mbufs : List Nat)
  | jfreePage (cpu p : Nat)
  | housekeep

def step : Event -> Option State
  | .jallocPage cpu flags => (jallocPage config state cpu flags).map Prod.snd
  | .jpageDup addr => some (jpageDup state addr).2
  | .bulkFreePages cpu mbufs => bulkFreePages config state cpu mbufs
  | .jfreePage cpu p => jfreePage config state cpu p
  | .housekeep => housekeepZeropageCache config state

end JinyKernel.Netbuf
