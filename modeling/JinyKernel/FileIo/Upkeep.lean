import JinyKernel.FileIo.Reclaim

namespace JinyKernel.FileIo

open Function PageCache Run Updates

-- What housekeeping leaves as it was, for the cache whose pages `members` are.
structure Upkept (usable : Nat -> Prop) (total : Int) (held : List (Nat × Nat)) (cache : Cache) (members : Members)
    (after : Cache) (fewer : Members) : Prop where
  sane : Sane usable total after held fewer
  size : ∀ inode, (after.inode inode).stSize = (cache.inode inode).stSize
  subset : ∀ inode, fewer inode ⊆ members inode
  offset : ∀ page, after.offset page = cache.offset page

section

variable {usable : Nat -> Prop} {total : Int} {held : List (Nat × Nat)} {cache middle after : Cache}
  {members between fewer : Members}

theorem Upkept.trans (first : Upkept usable total held cache members middle between)
    (second : Upkept usable total held middle between after fewer) :
    Upkept usable total held cache members after fewer where
  sane := second.sane
  size inode := (second.size inode).trans (first.size inode)
  subset inode := (second.subset inode).trans (first.subset inode)
  offset page := (second.offset page).trans (first.offset page)

variable (sane : Sane usable total cache held members) {page inode : Nat} {rest : List Nat}

include sane

theorem Sane.kept : Upkept usable total held cache members cache members :=
  ⟨sane, fun _ => rfl, fun _ => Finset.Subset.refl _, fun _ => rfl⟩

theorem Sane.requeue (member : page ∈ members inode) {kind : ListType} (notFree : kind ≠ .free) :
    Upkept usable total held cache members (PageCache.refile cache page (some kind)) members :=
  ⟨sane.refile member notFree, fun _ => rfl, fun _ => Finset.Subset.refl _, fun _ => refile_offset ..⟩

theorem Sane.clean (first : (cache.list .dirty).queue = page :: rest) :
    Upkept usable total held cache members (clean cache page) members := by
  obtain ⟨inode, member⟩ := sane.first_member (by decide) first
  obtain ⟨place, index, inv, here⟩ := sane.bucket member
  have allowed : TrackAllowed (⟨cache, held⟩, members) (.pagecleaned page) :=
    ⟨sane.inserted_iff.2 ⟨inode, member⟩, trivial⟩
  have moved : PageCache.step ⟨cache, held⟩ (.pagecleaned page) = some ⟨FileIo.clean cache page, held⟩ := by
    simp [PageCache.step, FileIo.clean, pcPagecleaned_eq inv.cache here]
  obtain ⟨-, owners, -⟩ := clean_step inv.cache first
  exact ⟨sane.step allowed moved, fun inode => by rw [owners.inode], fun _ => Finset.Subset.refl _, owners.offset⟩

theorem Sane.cleans {pages : List Nat} (queued : (cache.list .dirty).queue = pages ++ rest) :
    Upkept usable total held cache members (pages.foldl FileIo.clean cache) members := by
  induction pages generalizing cache with
  | nil => exact sane.kept
  | cons page pages ih =>
    have step := sane.clean queued
    obtain ⟨place, inv⟩ := sane.filed
    exact step.trans (ih step.sane (clean_dirty inv.cache queued))

theorem Sane.delete (member : page ∈ members inode) :
    ∃ ok after fewer, pcDeletePage cache page = some (ok, after) ∧ Upkept usable total held cache members
      after fewer := by
  obtain ⟨place, index, inv, here⟩ := sane.bucket member
  have deleted : pcDeletePage cache page = _ := pcDeletePage_eq inv.cache here
  have allowed : TrackAllowed (⟨cache, held⟩, members) (.deletePage page) :=
    ⟨sane.inserted_iff.2 ⟨inode, member⟩, trivial⟩
  split_ifs at deleted
  · exact ⟨_, _, _, deleted, sane.kept⟩
  have moved : PageCache.step ⟨cache, held⟩ (.deletePage page) =
      some ⟨PageCache.refile (dropInode cache inode page) page (some .free), held⟩ := by
    simp only [PageCache.step, deleted, some_bind]
  refine ⟨_, _, _, deleted, sane.step allowed moved, fun _ => rfl, fun other => ?_, fun other => ?_⟩
  · simp only [record, sane.owner member, deleted]
    by_cases same : other = inode
    · subst same
      rw [update_self]
      exact Finset.erase_subset ..
    · rw [update_of_ne same]
  · rw [refile_offset]
    exact same Page.offset (by rfl) other

variable (targets : Targets) {rounds : Nat}

theorem ageLoop_upkept {i : Nat} (ran : ageLoop targets rounds i cache = some after) :
    Upkept usable total held cache members after members := by
  induction rounds generalizing cache i with
  | zero => cases ran
  | succ rounds ih =>
    by_cases more : targets.ageMore i (cache.list .active).count
    · cases first : (cache.list .active).queue with
      | nil =>
        rw [ageLoop, if_pos more, pagelistRemove_eq sane.lists, first] at ran
        cases ran
      | cons page rest =>
        obtain ⟨place, inv⟩ := sane.filed
        obtain ⟨inode, member⟩ := sane.first_member (by decide) first
        rw [ageLoop_step inv.cache first more] at ran
        -- either way the page comes to the end of a list of clean pages
        have move := sane.requeue member
          (by split <;> decide : (if ofOwner Inode.executing cache page then ListType.active else .inactive) ≠ .free)
        exact move.trans (ih move.sane ran)
    · rw [ageLoop, if_neg more] at ran
      cases ran
      exact sane.kept

theorem evictLoop_upkept {count : Int} (ran : evictLoop targets rounds count cache = some after) :
    ∃ fewer, Upkept usable total held cache members after fewer := by
  induction rounds generalizing cache count members with
  | zero => cases ran
  | succ rounds ih =>
    by_cases few : targets.free cache
    · obtain ⟨place, inv⟩ := sane.filed
      cases first : (cache.list .inactive).queue with
      | nil =>
        rw [evictLoop_null inv.cache few first] at ran
        cases ran
      | cons page rest =>
        obtain ⟨inode, member⟩ := sane.first_member (by decide) first
        have move := sane.requeue member (by decide : ListType.inactive ≠ .free)
        obtain ⟨ok, middle, fewer, deleted, drops⟩ := move.sane.delete member
        rw [evictLoop_step inv.cache.lists first few deleted] at ran
        split at ran
        next =>
          cases ran
          exact ⟨fewer, move.trans drops⟩
        next =>
          obtain ⟨last, later⟩ := ih drops.sane ran
          exact ⟨last, (move.trans drops).trans later⟩
    · rw [evictLoop, if_neg few] at ran
      cases ran
      exact ⟨members, sane.kept⟩

theorem housekeep_upkept {write : Nat -> Nat -> Int} {rounds : Rounds}
    (ran : housekeep targets write rounds cache = some after) :
    ∃ fewer, Upkept usable total held cache members after fewer := by
  obtain ⟨place, inv⟩ := sane.filed
  obtain ⟨middle, synced, ran⟩ := bind_iff.1 ran
  obtain ⟨aged, ageing, evicting⟩ := bind_iff.1 ran
  have syncs : Upkept usable total held cache members middle members := by
    rw [(syncPhase_spec inv.cache synced).2]
    split
    · exact sane.cleans (firstDirty_split cache)
    · exact sane.kept
  have ages : Upkept usable total held middle members aged members := by
    rw [agePhase] at ageing
    split at ageing
    · exact ageLoop_upkept syncs.sane targets ageing
    · cases ageing
      exact syncs.sane.kept
  obtain ⟨fewer, evicts⟩ := evictLoop_upkept ages.sane targets evicting
  exact ⟨fewer, (syncs.trans ages).trans evicts⟩

end

def stocked (targets : Targets) (rounds : Nat) (files : Files) : Option Files :=
  if (files.cache.list .free).queue = [] then pcHousekeep targets rounds files else some files

def fresh (files : Files) (page offset : Nat) (clearPage : Bool) : Files :=
  (files.withCache (pageInit (refile files.cache page none) page clearPage)).setOffset page offset

variable {usable : Nat -> Prop} {total : Int} {held : List (Nat × Nat)} {files ready : Files} {members : Members}
  {page offset rounds inode : Nat} {rest : List Nat} {targets : Targets}

theorem stocked_upkept (sane : Sane usable total files.cache held members)
    (stock : stocked targets rounds files = some ready) :
    ∃ fewer, Upkept usable total held files.cache members ready.cache fewer := by
  rw [stocked] at stock
  split at stock
  next =>
    have kept := pcHousekeep_cache targets rounds files
    rw [stock] at kept
    exact housekeep_upkept sane targets kept.symm
  next =>
    cases stock
    exact ⟨members, sane.kept⟩

theorem getFreePage_eq (sane : Sane usable total ready.cache held members)
    (stock : stocked targets rounds files = some ready) (first : (ready.cache.list .free).queue = page :: rest)
    (clearPage : Bool) : getFreePage targets rounds files clearPage =
      some (page, ready.withCache (pageInit (refile ready.cache page none) page clearPage)) := by
  have took : pagelistRemove ready.cache .free = some (page, refile ready.cache page none) := by
    rw [pagelistRemove_eq sane.lists, first]
    rfl
  rw [stocked] at stock
  rw [getFreePage]
  split at stock
  next empty =>
    simp [if_pos empty, stock, took]
  next stocked =>
    cases stock
    simp only [if_neg stocked, some_bind, took]

theorem Sane.first_listed {cache : Cache} {page : Nat} (sane : Sane usable total cache held members) {kind : ListType}
    {rest : List Nat} (first : (cache.list kind).queue = page :: rest) : (cache.page page).listType = some kind :=
  (sane.lists.filed.agrees page kind).1 (by rw [first]; exact List.mem_cons_self)

theorem Sane.free_outside (sane : Sane usable total ready.cache held members)
    (first : (ready.cache.list .free).queue = page :: rest) (inode : Nat) : page ∉ members inode := by
  intro member
  obtain ⟨kind, notFree, listed⟩ := sane.listed member
  rw [sane.first_listed first] at listed
  exact notFree (Option.some.inj listed).symm

theorem fresh_page (files : Files) (page offset : Nat) (clearPage : Bool) :
    (fresh files page offset clearPage).cache.page =
      update files.cache.page page { blankPage with offset := pageMask offset } := by
  simp [fresh, Files.setOffset, Files.withCache, setPage, pageInit, refile]

theorem Sane.fresh (sane : Sane usable total ready.cache held members)
    (first : (ready.cache.list .free).queue = page :: rest) (clearPage : Bool) :
    Sane usable total (fresh ready page offset clearPage).cache ((0, page) :: held) members := by
  have allowed : TrackAllowed (⟨ready.cache, held⟩, members) (.getFreePage 0 clearPage) :=
    ⟨by rw [Allowed, first]; simp, trivial⟩
  have ran : PageCache.step ⟨ready.cache, held⟩ (.getFreePage 0 clearPage) =
      some ⟨pageInit (PageCache.refile ready.cache page none) page clearPage, (0, page) :: held⟩ := by
    simp [PageCache.step, pcGetFreePage, pagelistRemove_eq sane.lists, first]
  have taken := sane.step allowed ran
  refine taken.touchPage rfl rfl rfl rfl fun inserted => ?_
  obtain ⟨inode, member⟩ := taken.inserted_iff.1 inserted
  exact absurd member (sane.free_outside first inode)

variable {cache : Cache}

theorem Sane.data (sane : Sane usable total cache held members) (data : Nat -> UInt8) :
    Sane usable total { cache with data := data } held members :=
  sane.touch ⟨⟨rfl, fun _ => rfl, fun _ => rfl, fun _ => rfl, fun _ => rfl, fun _ _ => rfl⟩, rfl⟩
    (fun _ _ => rfl) fun _ => rfl

theorem Sane.size (sane : Sane usable total cache held members) (inode size : Nat) :
    Sane usable total (setInode cache inode { cache.inode inode with stSize := size }) held members := by
  exact sane.touch ⟨⟨rfl, same Inode.pageList (by rfl), fun _ => rfl, fun _ => rfl, fun _ => rfl, fun _ _ => rfl⟩, rfl⟩
    (fun _ _ => rfl) (same Inode.nrpages (by rfl))

structure InsertedAs (cache after : Cache) (inode page : Nat) : Prop where
  data : after.data = cache.data
  offset : after.offset = cache.offset
  size : ∀ other, (after.inode other).stSize = (cache.inode other).stSize
  listType : ∀ other, other ≠ page -> (after.page other).listType = (cache.page other).listType
  clean : (after.page page).listType ≠ some .dirty

theorem Sane.insert (sane : Sane usable total cache ((0, page) :: held) members)
    (aligned : pageSize ∣ cache.offset page)
    (vacant : ∀ other ∈ members inode, cache.offset other ≠ cache.offset page)
    (within : cache.offset page ≤ (cache.inode inode).stSize) :
    ∃ after, pcInsertPage cache inode page = some (true, after) ∧ InsertedAs cache after inode page ∧
      Sane usable total after held (update members inode (insert page (members inode))) := by
  obtain ⟨place, inv⟩ := sane.filed
  have unlisted := inv.unlisted page (by simp)
  have outcome := pcInsertPage_eq inv.cache inode unlisted
  have inside : ¬ (cache.inode inode).stSize < (cache.page page).offset := Nat.not_lt.2 within
  rw [if_neg inside, bucketInsert_eq] at outcome
  have possible : Descending.insert cache.offset page
      ((cache.inode inode).pageList (getPagelistIndex (cache.page page).offset)) ≠ none := by
    rw [Ne, (sane.placed.ordered inode _).insert_eq_none]
    rintro ⟨other, member, same⟩
    exact vacant other ((sane.placed.listed inode other).2 ⟨_, member⟩) same
  obtain ⟨bucket, added⟩ := Option.ne_none_iff_exists'.1 possible
  rw [added] at outcome
  have allowed : TrackAllowed (⟨cache, (0, page) :: held⟩, members) (.insertPage 0 inode page) :=
    ⟨List.mem_cons_self, aligned⟩
  have ran : PageCache.step ⟨cache, (0, page) :: held⟩ (.insertPage 0 inode page) =
      some ⟨PageCache.refile (linkInode cache inode page bucket) page (some (insertTarget cache inode)), held⟩ := by
    simp [PageCache.step, outcome]
  have kept := sane.step allowed ran
  simp only [record, outcome] at kept
  refine ⟨_, outcome, ⟨rfl, ?_, ?_, ?_, ?_⟩, kept⟩
  · funext other
    rw [refile_offset]
    exact same Page.offset (by rfl) other
  · exact same Inode.stSize (by rfl)
  · intro other apart
    simp [PageCache.refile, linkInode, setPage, setInode, apart]
  · simp only [PageCache.refile, update_self, insertTarget]
    split <;> simp

theorem Sane.refused (behind : (cache.inode inode).stSize < cache.offset page) :
    pcInsertPage cache inode page = some (false, cache) := if_pos behind

theorem pagelistAdd_offset (cache : Cache) (page : Nat) (kind : ListType) (other : Nat) :
    (pagelistAdd cache page kind).offset other = cache.offset other :=
  same Page.offset (by rfl) other

theorem Sane.giveBack (sane : Sane usable total cache ((0, page) :: held) members) :
    Sane usable total (pcPutFreePage cache page) held members := by
  have allowed : TrackAllowed (⟨cache, (0, page) :: held⟩, members) (.putFreePage 0 page) := ⟨List.mem_cons_self, trivial⟩
  have ran : PageCache.step ⟨cache, (0, page) :: held⟩ (.putFreePage 0 page) = some ⟨pcPutFreePage cache page, held⟩ := by
    simp [PageCache.step]
  exact sane.step allowed ran

end JinyKernel.FileIo
