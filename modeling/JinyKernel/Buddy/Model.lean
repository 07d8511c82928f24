import JinyKernel.Machine

-- mm/memory.c: a page is its frame number, a free queue a list, head first; `none` is `BUG()`.

namespace JinyKernel.Buddy

open Function

def nrMemLists : Nat := 11

structure Page where
  count : Int
  reserved : Bool
  referenced : Bool
  swapCache : Bool
  dma : Bool
  netBuf : Bool
  optionData : Nat
  deriving DecidableEq

structure FreeArea where
  queue : List Nat
  map : Nat -> Bool
  statCount : Nat

abbrev Areas := Nat -> FreeArea

abbrev Pages := Nat -> Page

structure Mem where
  page : Pages
  maxMapNr : Nat
  nrFreePages : Int
  area : Areas
  phyMemSize : Nat
  statAllocs : Nat
  statFrees : Nat

def initMemQueue : FreeArea := { queue := [], map := fun _ => false, statCount := 0 }

def addMemQueue (area : FreeArea) (entry : Nat) : FreeArea :=
  { area with queue := entry :: area.queue, statCount := (area.statCount + 1) % 2 ^ 32 }

-- Unlinking an entry that is not on the queue would follow stray pointers.
def removeMemQueue (area : FreeArea) (entry : Nat) : Option FreeArea :=
  if entry ∈ area.queue then
    some { area with
      queue := area.queue.erase entry
      statCount := (area.statCount + 2 ^ 32 - 1) % 2 ^ 32 }
  else none

def changeBit (area : FreeArea) (index : Nat) : FreeArea :=
  { area with map := update area.map index (!area.map index) }

-- The loop of `_free_pages_ok`: with `mask = ~0UL << order`, `-mask` is `2 ^ order`.
def coalesce (areas : Areas) (mapNr order index : Nat) : Nat -> Option Areas
  | 0 => some (update areas order (addMemQueue (areas order) mapNr))
  | left + 1 =>
    let taken := (areas order).map index
    let toggled := changeBit (areas order) index
    if taken then do
      let area ← removeMemQueue toggled (mapNr ^^^ 2 ^ order)
      coalesce (update areas order area) (mapNr / 2 ^ (order + 1) * 2 ^ (order + 1))
        (order + 1) (index / 2) left
    else some (update areas order (addMemQueue toggled mapNr))

variable (mem : Mem)

-- `_free_pages_ok`; `g_nr_free_pages -= mask` adds `2 ^ order` to an `int`.
def freePagesOk (mapNr order : Nat) : Option Mem := do
  let areas ← coalesce mem.area (mapNr / 2 ^ order * 2 ^ order) order (mapNr / 2 ^ (1 + order))
    (nrMemLists - 1 - order)
  some { mem with area := areas, nrFreePages := toInt (mem.nrFreePages + 2 ^ order) }

def markUsed (areas : Areas) (index order : Nat) : Areas :=
  update areas order (changeBit (areas order) (index / 2 ^ (1 + order)))

-- `EXPAND`: the lower half of every split goes back on its list, the upper half is split on.
def expand (areas : Areas) (index low : Nat) : Nat -> Areas × Nat
  | 0 => (areas, index)
  | steps + 1 =>
    let high := low + steps
    let added := update areas high (addMemQueue (areas high) index)
    expand (markUsed added index high) (index + 2 ^ high) low steps

def setPage (pages : Pages) (frame : Nat) (page : Page) : Pages := update pages frame page

-- The loop `while (i--)` at the end of both calls.
def flipReferenced (seen : Bool) : Pages -> Nat -> Nat -> Option Pages
  | pages, _, 0 => some pages
  | pages, frame, left + 1 =>
    if (pages frame).referenced = seen then
      flipReferenced seen (setPage pages frame { pages frame with referenced := !seen }) (frame + 1) left
    else none

def putFreePages (addr order : Nat) : Option Mem := do
  let frame := mapNr addr
  let page := mem.page frame
  guard (frame < mem.maxMapNr)
  guard (page.reserved = false)
  guard (page.netBuf = false)
  guard (page.optionData = 0)
  -- A count that does not drop to 0 ends in `BUG()`.
  guard (page.count - 1 = 0)
  guard (page.swapCache = false)
  -- Orders past the last list index outside `free_mem_area`.
  guard (order < nrMemLists)
  let counted := { mem with
    page := setPage mem.page frame { page with count := page.count - 1 }
    statFrees := mem.statFrees + 1 }
  let freed ← freePagesOk counted frame order
  let pages ← flipReferenced true freed.page frame (2 ^ order)
  some { freed with page := pages }

-- The search of `mm_getFreePages`: the first list from `newOrder` on that has a page with `CAN_DMA`.
def findFree (pages : Pages) (areas : Areas) (newOrder : Nat) : Nat -> Option (Nat × Nat)
  | 0 => none
  | left + 1 =>
    match (areas newOrder).queue.find? fun frame => (pages frame).dma with
    | some frame => some (newOrder, frame)
    | none => findFree pages areas (newOrder + 1) left

def takeEntry (areas : Areas) (order entry : Nat) : Areas :=
  let area := changeBit (areas order) (entry / 2 ^ (1 + order))
  update areas order { area with
    queue := area.queue.erase entry
    statCount := (area.statCount + 2 ^ 32 - 1) % 2 ^ 32 }

-- The block that leaves the lists. `MEM_CLEAR` and the leak hook do not touch the allocator.
def takeBlock (order newOrder entry : Nat) : Option (Nat × Mem) := do
  let taken := takeEntry mem.area newOrder entry
  let (areas, frame) := expand taken entry order (newOrder - order)
  let counted := setPage mem.page frame { mem.page frame with count := 1 }
  let pages ← flipReferenced false counted frame (2 ^ order)
  guard (¬ (kaddrspaceStart + mem.phyMemSize ≤ address frame ∨ address frame < kaddrspaceStart))
  some (address frame, { mem with
    page := pages
    area := areas
    nrFreePages := toInt (mem.nrFreePages - 2 ^ order)
    statAllocs := mem.statAllocs + 1 })

-- `CAN_DMA` ignores the mask.
def getFreePages (_gfpMask order : Nat) : Option (Nat × Mem) :=
  let failed := some (0, { mem with statAllocs := mem.statAllocs + 1 })
  if nrMemLists ≤ order then failed
  else
    match findFree mem.page mem.area order (nrMemLists - order) with
    | none => failed
    | some (newOrder, entry) => takeBlock mem order newOrder entry

def blankPage : Page :=
  { count := 0, reserved := true, referenced := false, swapCache := false, dma := true, netBuf := false, optionData := 0 }

def initFreeArea (phyMemSize : Nat) : Mem :=
  { page := fun _ => blankPage
    maxMapNr := 0
    nrFreePages := 0
    area := fun _ => initMemQueue
    phyMemSize := phyMemSize
    statAllocs := 0
    statFrees := 0 }

def clearReserved (pages : Pages) (addrs : List Nat) : Pages :=
  addrs.foldl (fun pages addr =>
    setPage pages (mapNr addr) { pages (mapNr addr) with reserved := false }) pages

def releasePages (mem : Mem) : List Nat -> Option Mem
  | [] => some mem
  | addr :: rest =>
    let page := mem.page (mapNr addr)
    if page.reserved then releasePages mem rest
    else do
      let counted := { mem with page := setPage mem.page (mapNr addr) { page with count := 1, referenced := true } }
      let freed ← putFreePages counted addr 0
      releasePages freed rest

-- Both loops of `init_mem`: what is available is unreserved, then what is not reserved is released.
def releaseMem (available visited : List Nat) : Option Mem := do
  let freed ← releasePages { mem with page := clearReserved mem.page available } visited
  some { freed with statAllocs := 0, statFrees := 0 }

def pageAddrs (low high : Nat) : List Nat :=
  (List.range ((high - low + pageSize - 1) / pageSize)).map fun i => low + i * pageSize

def initMem (startMem endMem virtStartAddr : Nat) : Option Mem :=
  let endMem := pageMask endMem
  releaseMem { mem with maxMapNr := mapNr endMem } (pageAddrs (pageAlign startMem) endMem)
    (pageAddrs virtStartAddr (wrapSub endMem 0x2000))

end JinyKernel.Buddy
