import JinyKernel.FileIo.Steps

-- `write call len` is what the file system returns on its `call`-th write.

namespace JinyKernel.FileIo

open Function PageCache List Option Run Updates

def dueLen (cache : Cache) (page : Nat) : Nat :=
  match (cache.page page).fsInode with
  | none => 0
  | some inode => syncLen (cache.inode inode).stSize (cache.page page).offset

def Full (write : Nat -> Nat -> Int) (cache : Cache) (page call : Nat) : Prop :=
  toUlong (toInt (write call (dueLen cache page))) = dueLen cache page

instance (write : Nat -> Nat -> Int) (cache : Cache) (page call : Nat) : Decidable (Full write cache page call) :=
  inferInstanceAs (Decidable (_ = _))

def writeBack (write : Nat -> Nat -> Int) (call : Nat) (cache : Cache) (page : Nat) : Option (Bool × Cache) := do
  let cache ← pcGetPage cache page
  let inode ← (cache.page page).fsInode
  let len := syncLen (cache.inode inode).stSize (cache.page page).offset
  let ret := toInt (write call len)
  if toUlong ret = len then do
    let cache ← pcPagecleaned cache page
    let cache ← pcPutPage cache page
    some (true, cache)
  else do
    let cache ← pcPutPage cache page
    some (false, cache)

def dataSync (write : Nat -> Nat -> Int) (numPages : Int) : Nat -> Nat -> Int -> Cache -> Option (Int × Nat × Cache)
  | 0, _, _, _ => none
  | rounds + 1, call, writeCount, cache =>
    match (cache.list .dirty).queue with
    | [] => some (writeCount, call, cache)
    | page :: _ => do
        let (written, cache) ← writeBack write call cache page
        let writeCount := if written then writeCount + 1 else writeCount
        if numPages > 0 ∧ writeCount > numPages then some (writeCount, call + 1, cache)
        else dataSync write numPages rounds (call + 1) writeCount cache

structure SameOwners (before after : Cache) : Prop where
  inode : after.inode = before.inode
  fsInode : ∀ page, (after.page page).fsInode = (before.page page).fsInode
  offset : ∀ page, (after.page page).offset = (before.page page).offset
  totalPages : after.totalPages = before.totalPages

def clean (cache : Cache) (page : Nat) : Cache := (pcPagecleaned cache page).getD cache

def ofOwner (flag : Inode -> Bool) (cache : Cache) (page : Nat) : Bool :=
  (cache.page page).fsInode.any fun inode => flag (cache.inode inode)

def cleanedTo (cache : Cache) (page : Nat) : ListType :=
  if ofOwner Inode.shortLived cache page then .active else .inactive

-- The pages written back before `fs_data_sync` ends by itself.
def owed (numPages writeCount : Int) (queue : List Nat) : List Nat :=
  if numPages > 0 then queue.take (numPages + 1 - writeCount).toNat else queue

section

variable {cache after : Cache} {place : Nat -> Option (Nat × Nat)} {page : Nat} {rest : List Nat}

theorem SameOwners.trans {last : Cache} (first : SameOwners cache after) (second : SameOwners after last) :
    SameOwners cache last where
  inode := second.inode.trans first.inode
  fsInode page := (second.fsInode page).trans (first.fsInode page)
  offset page := (second.offset page).trans (first.offset page)
  totalPages := second.totalPages.trans first.totalPages

theorem SameOwners.dueLen (same : SameOwners cache after) : dueLen after = dueLen cache := by
  funext page
  simp [FileIo.dueLen, same.inode, same.fsInode, same.offset]

theorem SameOwners.ofOwner (same : SameOwners cache after) (flag : Inode -> Bool) :
    ofOwner flag after = ofOwner flag cache := by
  funext page
  simp [FileIo.ofOwner, same.inode, same.fsInode]

theorem refile_sameOwners (cache : Cache) (page : Nat) (target : Option ListType) :
    SameOwners cache (refile cache page target) where
  inode := rfl
  fsInode := same Page.fsInode (by rfl)
  offset := same Page.offset (by rfl)
  totalPages := rfl

theorem refile_queue (lists : ListsInv cache) {from_ : ListType} (first : (cache.list from_).queue = page :: rest)
    (target kind : ListType) : ((refile cache page (some target)).list kind).queue =
      (if kind = from_ then rest else (cache.list kind).queue) ++ if target = kind then [page] else [] := by
  have listed := (lists.filed.agrees page from_).1 (by simp [first])
  have erased : (cache.list kind).queue.erase page = if kind = from_ then rest else (cache.list kind).queue := by
    split
    next same => rw [same, first, erase_cons_head]
    next other =>
      refine erase_of_not_mem fun member => other ?_
      exact some.inj (((lists.filed.agrees page kind).1 member).symm.trans listed)
  simp only [refile, refileQueue, erased, some.injEq, decide_eq_true_eq]
  split <;> simp

theorem SameOwners.full (same : SameOwners cache after) (write : Nat -> Nat -> Int) :
    Full write after = Full write cache := by
  funext page call
  rw [Full, same.dueLen, Full]

theorem cleanedTo_ne (cache : Cache) (page : Nat) : cleanedTo cache page ≠ .dirty ∧ cleanedTo cache page ≠ .free := by
  rw [cleanedTo]
  split <;> decide

section

variable (inv : CacheInv cache place)

include inv

theorem CacheInv.first_placed {kind : ListType} (notFree : kind ≠ .free)
    (first : (cache.list kind).queue = page :: rest) :
    ∃ slot, place page = some slot := by
  have listed := (inv.lists.filed.agrees page kind).1 (by simp [first])
  exact isSome_iff_exists.1 ((inv.cached page).2 ⟨kind, notFree, listed⟩)

theorem writeBack_eq {slot : Nat × Nat} (here : place page = some slot) (write : Nat -> Nat -> Int) (call : Nat) :
    writeBack write call cache page =
      some (if Full write cache page call then (true, clean cache page) else (false, cache)) := by
  have owner := inv.owned page slot here
  have counted : ((addCount cache page 1).page page).fsInode = some slot.1 := by simpa [addCount, setPage] using owner
  have offset : ((addCount cache page 1).page page).offset = (cache.page page).offset := by simp [addCount, setPage]
  have size : (addCount cache page 1).inode = cache.inode := rfl
  have len : dueLen cache page = syncLen (cache.inode slot.1).stSize (cache.page page).offset := by simp [dueLen, owner]
  have back : addCount (addCount cache page 1) page (-1) = cache := by simp [addCount, setPage]
  obtain ⟨cleaned, put⟩ := cleaned_put inv here
  simp only [writeBack, pcGetPage_eq owner, some_bind, counted, offset, size, ← len, cleaned,
    put, pcPutPage_eq counted, back, clean, pcPagecleaned_eq inv here, getD_some]
  exact (apply_ite some _ _ _).symm

theorem clean_step (first : (cache.list .dirty).queue = page :: rest) :
    CacheInv (clean cache page) place ∧ SameOwners cache (clean cache page) ∧
      ∀ kind, ((clean cache page).list kind).queue = (if kind = .dirty then rest else (cache.list kind).queue) ++
        if cleanedTo cache page = kind then [page] else [] := by
  obtain ⟨slot, here⟩ := CacheInv.first_placed inv (by decide) first
  have target : cleanTarget cache slot.1 = cleanedTo cache page := by
    simp [cleanTarget, cleanedTo, ofOwner, inv.owned page slot here]
  rw [clean, pcPagecleaned_eq inv here, getD_some, ← target]
  exact ⟨inv.refileDirty (by simp [here]) (cleanTarget_ne _ _) false,
    (refile_sameOwners cache page _).trans ⟨rfl, same Page.fsInode (by rfl), same Page.offset (by rfl), rfl⟩,
    refile_queue inv.lists first (cleanTarget cache slot.1)⟩

theorem clean_dirty (first : (cache.list .dirty).queue = page :: rest) :
    ((clean cache page).list .dirty).queue = rest := by
  rw [(clean_step inv first).2.2, if_pos rfl, if_neg (cleanedTo_ne cache page).1, append_nil]

theorem cleans_spec {pages : List Nat} (queued : (cache.list .dirty).queue = pages ++ rest) :
    CacheInv (pages.foldl clean cache) place ∧ SameOwners cache (pages.foldl clean cache) ∧
      ∀ kind, ((pages.foldl clean cache).list kind).queue = (if kind = .dirty then rest else (cache.list kind).queue) ++
        pages.filter fun page => cleanedTo cache page = kind := by
  induction pages generalizing cache with
  | nil =>
    refine ⟨inv, ⟨rfl, fun _ => rfl, fun _ => rfl, rfl⟩, fun kind => ?_⟩
    rw [filter_nil, append_nil]
    split
    next same => rw [same]; exact queued
    next => rfl
  | cons page pages ih =>
    have first := queued
    obtain ⟨inv', same, lists⟩ := clean_step inv first
    obtain ⟨invs, owners, queues⟩ := ih inv' (clean_dirty inv first)
    have target : cleanedTo (clean cache page) = cleanedTo cache := by
      funext other
      rw [cleanedTo, same.ofOwner, cleanedTo]
    refine ⟨invs, same.trans owners, fun kind => ?_⟩
    rw [foldl_cons, queues, target, filter_cons, lists]
    by_cases dirty : kind = .dirty
    · simp [dirty, cleanedTo_ne]
    · by_cases here : cleanedTo cache page = kind <;> simp [dirty, here]

end

theorem owed_cons {numPages writeCount : Int} (within : numPages > 0 -> writeCount ≤ numPages) :
    owed numPages writeCount (page :: rest) =
      page :: if numPages > 0 ∧ writeCount + 1 > numPages then [] else owed numPages (writeCount + 1) rest := by
  by_cases bounded : numPages > 0
  · have more : (numPages + 1 - writeCount).toNat = (numPages + 1 - (writeCount + 1)).toNat + 1 := by
      omega
    simp only [owed, more, take_succ_cons, bounded, true_and, if_true]
    by_cases last : writeCount + 1 > numPages
    · rw [if_pos last, Int.toNat_of_nonpos (by omega), take_zero]
    · rw [if_neg last]
  · simp [owed, bounded]

theorem answered_tail {full : Nat -> Nat -> Prop} {calls : List Nat} (answered : List.SublistForall₂ full
    (page :: rest) calls) :
    List.SublistForall₂ full rest calls := by
  obtain ⟨chosen, matched, inside⟩ := List.sublistForall₂_iff.1 answered
  cases matched with
  | cons _ later => exact List.sublistForall₂_iff.2 ⟨_, later, (sublist_cons_self ..).trans inside⟩

section

variable {write : Nat -> Nat -> Int} {numPages writeCount : Int} (inv : CacheInv cache place)
  (within : numPages > 0 -> writeCount ≤ numPages)

include inv within

theorem dataSync_step (first : (cache.list .dirty).queue = page :: rest) (rounds call : Nat) :
    dataSync write numPages (rounds + 1) call writeCount cache =
      if Full write cache page call then
        if numPages > 0 ∧ writeCount + 1 > numPages then some (writeCount + 1, call + 1, clean cache page)
        else dataSync write numPages rounds (call + 1) (writeCount + 1) (clean cache page)
      else dataSync write numPages rounds (call + 1) writeCount cache := by
  obtain ⟨slot, here⟩ := CacheInv.first_placed inv (by decide) first
  have going : ¬ (numPages > 0 ∧ writeCount > numPages) := fun ⟨bounded, beyond⟩ => by
    omega
  simp only [dataSync, first, writeBack_eq inv here, some_bind]
  by_cases full : Full write cache page call
  · simp [if_pos full]
  · simp only [if_neg full, Bool.false_eq_true, if_false, if_neg going]

theorem dataSync_result {rounds call : Nat} {out : Int × Nat × Cache}
    (ran : dataSync write numPages rounds call writeCount cache = some out) :
    out.1 = writeCount + (owed numPages writeCount (cache.list .dirty).queue).length ∧
      out.2.2 = (owed numPages writeCount (cache.list .dirty).queue).foldl clean cache ∧
      ∃ calls, List.SublistForall₂ (Full write cache) (owed numPages writeCount (cache.list .dirty).queue)
        (List.range' call calls) := by
  induction rounds generalizing call writeCount cache with
  | zero => cases ran
  | succ rounds ih =>
    cases first : (cache.list .dirty).queue with
    | nil =>
      rw [dataSync, first] at ran
      cases ran
      have nothing : owed numPages writeCount [] = [] := by simp [owed]
      rw [nothing]
      exact ⟨by simp, rfl, 0, .nil⟩
    | cons page rest =>
      rw [dataSync_step inv within first] at ran
      split at ran
      next full =>
        obtain ⟨inv', same, -⟩ := clean_step inv first
        rw [owed_cons within]
        split at ran
        next last =>
          cases ran
          rw [if_pos last]
          exact ⟨by simp, rfl, 1, .cons full .nil⟩
        next more =>
          obtain ⟨count, result, calls, answered⟩ := ih inv' (by omega) ran
          rw [clean_dirty inv first] at count result answered
          rw [same.full] at answered
          rw [if_neg more]
          refine ⟨?_, result, calls + 1, .cons full answered⟩
          rw [count, length_cons]
          omega
      next =>
        -- the page stays the first dirty page
        obtain ⟨count, result, calls, answered⟩ := ih inv within ran
        rw [first] at count result answered
        exact ⟨count, result, calls + 1, .cons_right answered⟩

theorem dataSync_returns {call calls : Nat} (answered : List.SublistForall₂ (Full write cache)
      (owed numPages writeCount (cache.list .dirty).queue) (List.range' call calls)) :
    ∃ rounds out, dataSync write numPages rounds call writeCount cache = some out := by
  induction calls generalizing call writeCount cache with
  | zero =>
    cases first : (cache.list .dirty).queue with
    | nil => exact ⟨1, _, by rw [dataSync, first]⟩
    | cons page rest =>
      rw [first, owed_cons within] at answered
      cases answered
  | succ calls ih =>
    cases first : (cache.list .dirty).queue with
    | nil => exact ⟨1, _, by rw [dataSync, first]⟩
    | cons page rest =>
      rw [range'_succ, first, owed_cons within] at answered
      by_cases full : Full write cache page call
      · have later : List.SublistForall₂ (Full write cache) (if numPages > 0 ∧ writeCount + 1 > numPages then []
            else owed numPages (writeCount + 1) rest) (List.range' (call + 1) calls) := by
          cases answered with
          | cons _ later => exact later
          | cons_right later => exact answered_tail later
        by_cases last : numPages > 0 ∧ writeCount + 1 > numPages
        · exact ⟨1, _, by rw [dataSync_step inv within first, if_pos full, if_pos last]⟩
        obtain ⟨inv', same, -⟩ := clean_step inv first
        rw [if_neg last, ← clean_dirty inv first, ← same.full] at later
        obtain ⟨rounds, out, ran⟩ := ih inv' (by omega) later
        exact ⟨rounds + 1, out, by rw [dataSync_step inv within first, if_pos full, if_neg last, ran]⟩
      · cases answered with
        | cons matched _ => exact absurd matched full
        | cons_right later =>
          rw [← owed_cons within, ← first] at later
          obtain ⟨rounds, out, ran⟩ := ih inv within later
          exact ⟨rounds + 1, out, by rw [dataSync_step inv within first, if_neg full, ran]⟩

end

theorem dataSync_returns_iff (write : Nat -> Nat -> Int) (numPages : Int) (inv : CacheInv cache place) :
    (∃ rounds out, dataSync write numPages rounds 0 0 cache = some out) ↔
      ∃ calls, List.SublistForall₂ (Full write cache) (owed numPages 0 (cache.list .dirty).queue) (List.range calls) := by
  simp only [range_eq_range']
  constructor
  · rintro ⟨rounds, out, ran⟩
    exact (dataSync_result inv Int.le_of_lt ran).2.2
  · rintro ⟨calls, answered⟩
    exact dataSync_returns inv Int.le_of_lt answered

theorem syncLen_le (stSize offset : Nat) : syncLen stSize offset ≤ pageSize := by
  rw [syncLen]
  generalize (if stSize < wrap (offset + pageSize) then wrapSub stSize offset else pageSize) = len
  split <;> omega

theorem dueLen_le (cache : Cache) (page : Nat) : dueLen cache page ≤ pageSize := by
  rw [dueLen]
  split
  · exact Nat.zero_le _
  · exact syncLen_le ..

def whole (_ len : Nat) : Int := len

theorem full_whole (cache : Cache) (page call : Nat) : Full whole cache page call := by
  have small := dueLen_le cache page
  rw [pageSize] at small
  rw [Full, whole, toInt_nat (by omega), toUlong_nat (by omega)]

end

-- A file system that writes what it is asked to is that of `Files`.
theorem writeBack_whole (files : Files) (page call : Nat) :
    writeBack whole call files.cache page = (syncPage files page).map fun after => (true, after.cache) := by
  have kept (files : Files) (inode offset : Nat) (data : List UInt8) :
      (files.vfsWrite inode offset data).cache = files.cache := by
    rw [Files.vfsWrite]
    split <;> rfl
  simp only [writeBack, syncPage, bind_eq_bind, map_bind, comp_def, map_some, kept, Files.withCache]
  refine bind_congr fun cache _ => bind_congr fun inode _ => ?_
  have small := syncLen_le (cache.inode inode).stSize (cache.page page).offset
  rw [pageSize] at small
  generalize syncLen _ _ = len at *
  have full : toUlong (toInt (whole call len)) = len := by
    rw [whole, toInt_nat (by omega), toUlong_nat (by omega)]
  rw [if_pos full]

theorem fsDataSync_cache (numPages rounds writeCount call : Nat) (files : Files) :
    (fsDataSync numPages rounds writeCount files).map (fun out => ((out.1 : Int), out.2.cache)) =
      (dataSync whole numPages rounds call writeCount files.cache).map fun out => (out.1, out.2.2) := by
  induction rounds generalizing writeCount call files with
  | zero => rfl
  | succ rounds ih =>
    rw [fsDataSync, dataSync]
    cases (files.cache.list .dirty).queue with
    | nil => rfl
    | cons page rest =>
      simp only [writeBack_whole files]
      cases syncPage files page with
      | none => rfl
      | some after =>
        simp only [map_some, some_bind, if_true]
        have limit : numPages > 0 ∧ writeCount + 1 > numPages ↔ (numPages : Int) > 0 ∧
            (writeCount : Int) + 1 > numPages := by
          omega
        by_cases last : numPages > 0 ∧ writeCount + 1 > numPages
        · rw [if_pos last, if_pos (limit.1 last)]
          simp
        · rw [if_neg last, if_neg (mt limit.2 last), ih (writeCount + 1) (call + 1)]
          simp

def mayRun (state : State) : Event -> Bool
  | .getFreePage _ _ => !(state.cache.list .free).queue.isEmpty
  | .insertPage caller _ page => (caller, page) ∈ state.held
  | .pageDirted page => (state.cache.page page).listLinked
  | _ => false

def mayStep (state : State) (event : Event) : Option State := if mayRun state event then step state event else none

theorem mayRun_reaches {events : List Event} {last : State}
    (ran : events.foldlM mayStep smallCache = some last) :
    Reaches (117 * pageSize) (fun _ => 0) last := by
  refine Reachable.checked (fun state event reached may => ?_) (.start rfl) ran
  obtain ⟨place, inv⟩ := (show Reaches _ _ state from reached).sound.1
  cases event with
  | getFreePage caller clearPage => exact fun empty => by simp [mayRun, empty] at may
  | insertPage caller inode page => exact of_decide_eq_true (p := (caller, page) ∈ state.held) may
  | pageDirted page => exact (inv.cache.inserted_iff page).2 ((inv.cache.linked page).symm.trans may)
  | _ => cases may

def dirtying : List Event :=
  [.getFreePage 7 true, .getFreePage 7 true, .insertPage 7 0 115, .insertPage 7 1 116, .pageDirted 115, .pageDirted 116]

theorem two_dirty : ∃ state place, Reaches (117 * pageSize) (fun _ => 0) state ∧ CacheInv state.cache place ∧
    (state.cache.list .dirty).queue = [115, 116] := by
  have outcome : (dirtying.foldlM mayStep smallCache).any
        (fun state => (state.cache.list .dirty).queue = [115, 116]) = true := by decide +kernel
  obtain ⟨state, ran, facts⟩ := holds_of_any outcome
  have reached := mayRun_reaches ran
  obtain ⟨place, inv⟩ := reached.sound.1
  exact ⟨state, place, reached, inv.cache, facts⟩

theorem dataSync_returns_pair : ∃ state : State, (state.cache.list .dirty).queue = [115, 116] ∧
    ∃ rounds out, dataSync whole 100 rounds 0 0 state.cache = some out := by
  obtain ⟨state, place, -, inv, queue⟩ := two_dirty
  refine ⟨state, queue, (dataSync_returns_iff whole 100 inv).2 ⟨2, ?_⟩⟩
  rw [queue]
  exact .cons (full_whole ..) (.cons (full_whole ..) .nil)

theorem dataSync_spins : ∃ state, Reaches (117 * pageSize) (fun _ => 0) state ∧
    (state.cache.list .dirty).queue = [115, 116] ∧
    ∀ rounds, dataSync (fun _ _ => -1) 100 rounds 0 0 state.cache = none := by
  obtain ⟨state, place, reached, inv, queue⟩ := two_dirty
  refine ⟨state, reached, queue, fun rounds => ?_⟩
  have refused (call : Nat) : ¬ Full (fun _ _ => -1) state.cache 115 call := by
    intro full
    have small : toUlong (toInt (-1)) ≤ pageSize := full.trans_le (dueLen_le state.cache 115)
    exact absurd small (by decide)
  generalize 0 = call
  induction rounds generalizing call with
  | zero => rfl
  | succ rounds ih => rw [dataSync_step inv (by decide) queue, if_neg (refused call), ih]

section

variable {cache : Cache} {place : Nat -> Option (Nat × Nat)}

theorem answered_whole (pages : List Nat) (call : Nat) :
    List.SublistForall₂ (Full whole cache) pages (List.range' call pages.length) := by
  induction pages generalizing call with
  | nil => exact .nil
  | cons page pages ih => exact .cons (full_whole ..) (ih (call + 1))

-- What the loop of `pc_housekeep` relies on comes last.
def Bounded (n : Nat) (cache : Cache) : Prop :=
  ∃ rounds calls after, dataSync whole n rounds 0 0 cache =
      some (((min n (cache.list .dirty).queue.length : Nat) : Int), calls, after) ∧
    (after.list .dirty).queue = (cache.list .dirty).queue.drop (min n (cache.list .dirty).queue.length) ∧
    (min n (cache.list .dirty).queue.length ≠ n -> (after.list .dirty).queue = [])

theorem dataSync_bounded_iff (inv : CacheInv cache place) (n : Nat) (positive : 0 < n) :
    Bounded n cache ↔ (cache.list .dirty).queue.length ≤ n := by
  set queue := (cache.list .dirty).queue with queueDef
  have pages : owed n 0 queue = queue.take (n + 1) := by
    rw [owed, if_pos (by omega)]
    congr 1
  have within : (n : Int) > 0 -> (0 : Int) ≤ n := Int.le_of_lt
  constructor
  · rintro ⟨rounds, calls, after, ran, -, -⟩
    have count := (dataSync_result inv within ran).1
    rw [← queueDef, pages, length_take] at count
    omega
  intro few
  obtain ⟨rounds, ⟨written, calls, after⟩, ran⟩ := dataSync_returns inv within (answered_whole _ 0)
  obtain ⟨count, result, -⟩ := dataSync_result inv within ran
  rw [← queueDef, pages, take_of_length_le (by omega)] at count result
  dsimp only at count result
  have queued : (cache.list .dirty).queue = queue ++ [] := by simp [queueDef]
  have emptied : (after.list .dirty).queue = [] := by
    have nothing : queue.filter (fun page => cleanedTo cache page = .dirty) = [] := by simp [cleanedTo_ne]
    rw [result, (cleans_spec inv queued).2.2, if_pos rfl, nothing, append_nil]
  have least := Nat.min_eq_right few
  refine ⟨rounds, calls, after, ?_, ?_, fun _ => emptied⟩
  · rw [ran, least, ← Int.zero_add (queue.length : Int), ← count]
  · rw [emptied, least, drop_length]

end

theorem dataSync_bounded_pair :
    ∃ state : State, (state.cache.list .dirty).queue = [115, 116] ∧ Bounded 2 state.cache := by
  obtain ⟨state, place, -, inv, queue⟩ := two_dirty
  refine ⟨state, queue, (dataSync_bounded_iff inv 2 (by decide)).2 ?_⟩
  simp [queue]

theorem dataSync_exceeds : ∃ state, Reaches (117 * pageSize) (fun _ => 0) state ∧
    (state.cache.list .dirty).queue = [115, 116] ∧
    ∃ calls after, dataSync whole 1 2 0 0 state.cache = some (2, calls, after) := by
  obtain ⟨state, place, reached, inv, queue⟩ := two_dirty
  have inv' := (clean_step inv queue).1
  refine ⟨state, reached, queue, 2, clean (clean state.cache 115) 116, ?_⟩
  rw [dataSync_step inv (by decide) queue, if_pos (full_whole ..), if_neg (by decide),
    dataSync_step inv' (by decide) (clean_dirty inv queue), if_pos (full_whole ..), if_pos (by decide)]
  rfl

end JinyKernel.FileIo
