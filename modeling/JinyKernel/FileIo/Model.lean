import JinyKernel.PageCache.Model
import JinyKernel.Shared.Memory

-- fs/file.cc without read-ahead; `none` is `BUG()`, an invalid pointer or a loop out of rounds.

namespace JinyKernel.FileIo

open PageCache Memory

structure Files where
  cache : Cache
  backing : Nat -> List UInt8

-- The tests of `pc_housekeep`, which are in floating point.
structure Targets where
  fewFree : Int -> Int -> Bool
  manyDirty : Int -> Int -> Bool
  fewInactive : Int -> Int -> Bool
  ageMore : Nat -> Int -> Bool

def maxPagesSync : Nat := 100

namespace Files

variable (files : Files)

def withCache (cache : Cache) : Files := { files with cache := cache }

def stSize (inode : Nat) : Nat := (files.cache.inode inode).stSize

def setSize (inode size : Nat) : Files :=
  files.withCache (setInode files.cache inode { files.cache.inode inode with stSize := size })

def setOffset (page offset : Nat) : Files :=
  files.withCache (setPage files.cache page { files.cache.page page with offset := pageMask offset })

-- Nothing keeps the bytes inside the page.
def storeBytes (page pos : Nat) (data : List UInt8) : Files :=
  files.withCache { files.cache with data := store files.cache.data (page * pageSize + pos) data }

def vfsRead (inode offset len : Nat) : List UInt8 := ((files.backing inode).drop offset).take len

def vfsWrite (inode offset : Nat) (data : List UInt8) : Files :=
  if data = [] then files
  else { files with
    backing := Function.update files.backing inode (overwrite 0 (files.backing inode) offset data) }

end Files

def pcPutPage (cache : Cache) (page : Nat) : Option Cache :=
  match (cache.page page).fsInode with
  | none => none
  | some _ => some (setPage cache page { cache.page page with count := (cache.page page).count - 1 })

def syncLen (stSize offset : Nat) : Nat :=
  let len := if stSize < wrap (offset + pageSize) then wrapSub stSize offset else pageSize
  if len > pageSize then pageSize else len

def syncPage (files : Files) (page : Nat) : Option Files := do
  let cache ← pcGetPage files.cache page
  let inode ← (cache.page page).fsInode
  let len := syncLen (cache.inode inode).stSize (cache.page page).offset
  let written := (files.withCache cache).vfsWrite inode (cache.page page).offset
    (window cache.data (page * pageSize) len)
  let cache ← pcPagecleaned written.cache page
  let cache ← pcPutPage cache page
  some (written.withCache cache)

def fsDataSync (numPages : Nat) : Nat -> Nat -> Files -> Option (Nat × Files)
  | 0, _, _ => none
  | rounds + 1, writeCount, files =>
    match (files.cache.list .dirty).queue with
    | [] => some (writeCount, files)
    | page :: _ => do
        let files ← syncPage files page
        if numPages > 0 ∧ writeCount + 1 > numPages then some (writeCount + 1, files)
        else fsDataSync numPages rounds (writeCount + 1) files

variable (targets : Targets)

def Targets.free (cache : Cache) : Bool := targets.fewFree (cache.list .free).count cache.totalPages

def syncLoop (limit : Nat) : Nat -> Files -> Option Files
  | 0, _ => none
  | rounds + 1, files =>
    if targets.free files.cache ∨ targets.manyDirty (files.cache.list .dirty).count files.cache.totalPages then do
      let (ret, files) ← fsDataSync maxPagesSync limit 0 files
      if ret = maxPagesSync then syncLoop limit rounds files else some files
    else some files

def ageLoop : Nat -> Nat -> Cache -> Option Cache
  | 0, _, _ => none
  | rounds + 1, i, cache =>
    if targets.ageMore i (cache.list .active).count then do
      let (page, removed) ← pagelistRemove cache .active
      let inode ← (removed.page page).fsInode
      ageLoop rounds (i + 1) (pagelistAdd removed page (if (removed.inode inode).executing then .active else .inactive))
    else some cache

def evictLoop : Nat -> Int -> Cache -> Option Cache
  | 0, _, _ => none
  | rounds + 1, count, cache =>
    if targets.free cache then do
      let (page, removed) ← pagelistRemove cache .inactive
      let (_, cache) ← pcDeletePage (pagelistAdd removed page .inactive) page
      if count + 1 > (cache.list .inactive).count then some cache else evictLoop rounds (count + 1) cache
    else some cache

def pcHousekeep (rounds : Nat) (files : Files) : Option Files := do
  let files ← syncLoop targets rounds rounds files
  let cache ← if targets.fewInactive (files.cache.list .inactive).count files.cache.totalPages then
      ageLoop targets rounds 0 files.cache
    else some files.cache
  let cache ← evictLoop targets rounds 0 cache
  some (files.withCache cache)

def getFreePage (rounds : Nat) (files : Files) (clearPage : Bool) : Option (Nat × Files) := do
  let stocked ← if (files.cache.list .free).queue = [] then pcHousekeep targets rounds files else some files
  let (page, removed) ← pagelistRemove stocked.cache .free
  some (page, stocked.withCache (pageInit removed page clearPage))

-- Each round is one way from `retry_again` on.
def fsGenericRead (limit : Nat) : Nat -> Files -> Nat -> Nat -> Option (Option Nat × Files)
  | 0, _, _, _ => none
  | rounds + 1, files, inode, offset => do
      let (found, cache) ← pcGetInodePage files.cache inode offset
      match found with
      | some page => some (some page, files.withCache cache)
      | none =>
        let (page, files) ← getFreePage targets limit files false
        let files := files.setOffset page offset
        let bytes := files.vfsRead inode (pageMask offset) pageSize
        let files := files.storeBytes page 0 bytes
        if bytes.length > 0 then do
          let (inserted, cache) ← pcInsertPage files.cache inode page
          if inserted then
            let files := (files.withCache cache).storeBytes page bytes.length
              (List.replicate (pageSize - bytes.length) 0)
            let files := if wrap (bytes.length + pageMask offset) > files.stSize inode then
                files.setSize inode (wrap (offset + bytes.length)) else files
            fsGenericRead limit rounds files inode offset
          else do
            -- another thread may have got the page in between
            let (found, cache) ← pcGetInodePage (pcPutFreePage cache page) inode offset
            some (found, files.withCache cache)
        else some (none, files.withCache (pcPutFreePage files.cache page))

def readLength (stSize offset : Nat) (len : Int) : Int :=
  let ret : Int := pageSize - (offset - pageMask offset : Nat)
  let ret := if ret > len then len else ret
  if toUlong (offset + ret) > stSize then
    let r := toInt (wrapSub stSize offset)
    if r < ret then r else ret
  else ret

def fsInodeRead (rounds : Nat) (files : Files) (inode offset : Nat) (len : Int) : Option (Int × List UInt8 × Files) := do
  let (found, files) ← fsGenericRead targets rounds rounds files inode offset
  match found with
  | none => some (0, [], files)
  | some page => do
      let ret := readLength (files.stSize inode) offset len
      let data := window files.cache.data (page * pageSize + (offset - pageMask offset)) ret.toNat
      let cache ← pcPutPage files.cache page
      some (ret, data, files.withCache cache)

end JinyKernel.FileIo
