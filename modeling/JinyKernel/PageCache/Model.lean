import Mathlib.Data.Fintype.Basic
import JinyKernel.Machine

-- mm/pagecache.cc: a page is its index in `pagecache_map`; the mutex makes a call one step; `none` is `BUG()`.

namespace JinyKernel.PageCache

inductive ListType where
  | free
  | active
  | inactive
  | dirty
  deriving DecidableEq

instance : Fintype ListType := ⟨{.free, .active, .inactive, .dirty}, by intro kind; cases kind <;> simp⟩

def ageYoungest : Nat := 1
def ageEldest : Nat := 100
def pagelistHashSize : Nat := 512

def fileCacheSize : Nat := 436016
def pageStructSize : Nat := 272

structure Page where
  count : Int
  dirty : Bool
  age : Nat
  fsInode : Option Nat
  offset : Nat
  lruLinked : Bool
  listType : Option ListType
  listLinked : Bool
  deriving DecidableEq

structure PageList where
  queue : List Nat
  count : Int

structure Inode where
  executing : Bool
  shortLived : Bool
  stSize : Nat
  nrpages : Int
  pageList : Nat -> List Nat

structure Cache where
  page : Nat -> Page
  list : ListType -> PageList
  inode : Nat -> Inode
  data : Nat -> UInt8
  totalPages : Int

variable (cache : Cache) (page : Nat)

def setPage (value : Page) : Cache :=
  { cache with page := Function.update cache.page page value }

def setList (kind : ListType) (value : PageList) : Cache :=
  { cache with list := Function.update cache.list kind value }

def setInode (inode : Nat) (value : Inode) : Cache :=
  { cache with inode := Function.update cache.inode inode value }

def getPagelistIndex (offset : Nat) : Nat := offset / pageSize % pagelistHashSize

def clearBytes (data : Nat -> UInt8) (page : Nat) : Nat -> UInt8 := fun byte =>
  if page * pageSize ≤ byte ∧ byte < (page + 1) * pageSize then 0 else data byte

def blankPage : Page :=
  { count := 0
    dirty := false
    age := 0
    fsInode := none
    offset := 0
    lruLinked := false
    listType := none
    listLinked := false }

-- `page_init`; it forgets the links without unlinking anything.
def pageInit (clearPage : Bool) : Cache :=
  { setPage cache page blankPage with
    data := if clearPage then clearBytes cache.data page else cache.data }

def pagelistAdd (kind : ListType) : Cache :=
  let list := cache.list kind
  setPage (setList cache kind { queue := list.queue ++ [page], count := list.count + 1 }) page
    { cache.page page with lruLinked := true, listType := some kind }

-- The page leaves the list it is threaded on.
def lruDel : Cache :=
  if (cache.page page).lruLinked then
    setPage { cache with list := fun kind => { cache.list kind with queue := (cache.list kind).queue.erase page } } page
      { cache.page page with lruLinked := false }
  else cache

-- `_pagelist_move`; the count that drops is the one `list_type` names.
def pagelistMove (target : Option ListType) : Cache :=
  let removed :=
    match (cache.page page).listType with
    | none => cache
    | some kind =>
      let unlinked := lruDel cache page
      let list := unlinked.list kind
      setPage (setList unlinked kind { list with count := list.count - 1 }) page
        { unlinked.page page with listType := none }
  match target with
  | none => removed
  | some kind => pagelistAdd removed page kind

def pagelistRemove (kind : ListType) : Option (Nat × Cache) :=
  match (cache.list kind).queue with
  | [] => none
  | page :: _ =>
    let unlinked := lruDel cache page
    let list := unlinked.list kind
    some (page, setPage (setList unlinked kind { list with count := list.count - 1 }) page
      { unlinked.page page with listType := none })

def listDel : Cache :=
  if (cache.page page).listLinked then
    setPage { cache with inode := fun inode =>
        { cache.inode inode with pageList := fun index => ((cache.inode inode).pageList index).erase page } } page
      { cache.page page with listLinked := false }
  else cache

def pcPutFreePage : Cache := pagelistAdd cache page .free

def pcGetFreePage (housekeep : Cache -> Option Cache) (cache : Cache) (clearPage : Bool) : Option (Nat × Cache) :=
  match pagelistRemove cache .free with
  | some (page, removed) => some (page, pageInit removed page clearPage)
  | none => do
      let kept ← housekeep cache
      let (page, removed) ← pagelistRemove kept .free
      some (page, pageInit removed page clearPage)

-- The bucket is kept in descending order of offset.
def bucketInsert (pages : Nat -> Page) (page : Nat) : List Nat -> Option (List Nat)
  | [] => some [page]
  | tmpPage :: rest =>
    if (pages page).offset = (pages tmpPage).offset then none
    else if (pages tmpPage).offset < (pages page).offset then some (page :: tmpPage :: rest)
    else (bucketInsert pages page rest).map (tmpPage :: ·)

def pcInsertPage (inode page : Nat) : Option (Bool × Cache) :=
  let owner := cache.inode inode
  let entry := cache.page page
  if owner.stSize < entry.offset then some (false, cache)
  else if entry.listLinked ∨ entry.lruLinked then none
  else
    let index := getPagelistIndex entry.offset
    match bucketInsert cache.page page (owner.pageList index) with
    | none => some (false, cache)
    | some bucket =>
      let linked := setInode cache inode { owner with
        nrpages := owner.nrpages + 1
        pageList := Function.update owner.pageList index bucket }
      let owned := setPage linked page { entry with
        fsInode := some inode
        listLinked := true
        age := if owner.executing then ageYoungest else ageEldest }
      some (true, pagelistAdd owned page (if owner.executing then .active else .inactive))

def bucketSearch (pages : Nat -> Page) (pageOffset : Nat) : List Nat -> Option Nat
  | [] => none
  | page :: rest =>
    if (pages page).offset = pageOffset then some page
    else if pageOffset > (pages page).offset then none
    else bucketSearch pages pageOffset rest

def pcGetPage : Option Cache :=
  match (cache.page page).fsInode with
  | none => none
  | some _ => some (setPage cache page { cache.page page with count := (cache.page page).count + 1 })

def pcGetInodePage (inode offset : Nat) : Option (Option Nat × Cache) :=
  match bucketSearch cache.page (offset / pageSize * pageSize)
      ((cache.inode inode).pageList (getPagelistIndex offset)) with
  | none => some (none, cache)
  | some page => (pcGetPage cache page).map fun cache => (some page, cache)

def pcDeletePage : Option (Bool × Cache) :=
  match (cache.page page).fsInode with
  | none => none
  | some inode =>
    if (cache.page page).count ≠ 0 ∨ (cache.inode inode).executing then some (false, cache)
    else
      let moved := if (cache.page page).lruLinked then pagelistMove cache page none else cache
      if (moved.page page).listLinked = false then none
      else
        let unlinked := listDel moved page
        let owner := unlinked.inode inode
        let counted := setInode unlinked inode { owner with nrpages := owner.nrpages - 1 }
        let disowned := setPage counted page { counted.page page with fsInode := none }
        some (true, pcPutFreePage disowned page)

def pcPageDirted : Cache :=
  let moved := pagelistMove cache page (some .dirty)
  setPage moved page { moved.page page with dirty := true }

def pcPagecleaned : Option Cache :=
  match (cache.page page).fsInode with
  | none => none
  | some inode =>
    let moved := pagelistMove cache page
      (some (if (cache.inode inode).shortLived then .active else .inactive))
    some (setPage moved page { moved.page page with dirty := false })

-- `reserved_size` is an `int`.
def reservedLimit (totalPages : Int) : Int :=
  Int.tdiv (toInt (fileCacheSize + pageStructSize * totalPages) + pageSize) pageSize

def initPages (limit : Int) (cache : Cache) (page : Nat) : Nat -> Cache
  | 0 => cache
  | left + 1 =>
    let clean := pageInit cache page true
    -- A reserved page joins no list.
    initPages limit (if (page : Int) < limit then clean else pagelistAdd clean page .free) (page + 1) left

def newInode : Inode :=
  { executing := false, shortLived := false, stSize := 0, nrpages := 0, pageList := fun _ => [] }

def cachePages (len : Nat) : Int := toInt (len / pageSize)

def emptyCache (data : Nat -> UInt8) : Cache :=
  { page := fun _ => blankPage
    list := fun _ => { queue := [], count := 0 }
    inode := fun _ => newInode
    data := data
    totalPages := 0 }

def initCache (limit : Int) (count : Nat) (data : Nat -> UInt8) : Cache :=
  let filled := initPages limit (emptyCache data) 0 count
  { filled with totalPages := (filled.list .free).count }

def pcInit (len : Nat) (data : Nat -> UInt8) : Cache :=
  initCache (reservedLimit (cachePages len)) (cachePages len).toNat data

end JinyKernel.PageCache
