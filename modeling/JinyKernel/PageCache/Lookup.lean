import JinyKernel.PageCache.Run
import JinyKernel.Shared.Descending

namespace JinyKernel.PageCache

open List Option Updates Descending Function

abbrev Members := Nat -> Finset Nat

def record (state : State) (members : Members) : Event -> Members
  | .insertPage _ inode page =>
    match pcInsertPage state.cache inode page with
    | some (true, _) => update members inode (insert page (members inode))
    | _ => members
  | .deletePage page =>
    match (state.cache.page page).fsInode, pcDeletePage state.cache page with
    | some inode, some (true, _) => update members inode ((members inode).erase page)
    | _, _ => members
  | _ => members

def trackStep (entry : State × Members) (event : Event) : Option (State × Members) :=
  (step entry.1 event).map fun next => (next, record entry.1 entry.2 event)

-- Pages are inserted at page boundaries; outside the calls nobody writes their offsets or the page counts.
def TrackAllowed (entry : State × Members) (event : Event) : Prop :=
  Allowed entry.1 event ∧
    match event with
    | .insertPage _ _ page => pageSize ∣ (entry.1.cache.page page).offset
    | .environment after =>
      (∀ page, Inserted entry.1.cache page -> (after.page page).offset = (entry.1.cache.page page).offset) ∧
        ∀ inode, (after.inode inode).nrpages = (entry.1.cache.inode inode).nrpages
    | _ => True

variable (cache : Cache)

def Cache.offset (page : Nat) : Nat := (cache.page page).offset

theorem bucketInsert_eq (page : Nat) (bucket : List Nat) :
    bucketInsert cache.page page bucket = Descending.insert cache.offset page bucket := by
  induction bucket with
  | nil => rfl
  | cons first rest ih =>
    rw [bucketInsert, Descending.insert, ih]
    rfl

theorem bucketSearch_eq (pageOffset : Nat) (bucket : List Nat) :
    bucketSearch cache.page pageOffset bucket = search cache.offset pageOffset bucket := by
  induction bucket with
  | nil => rfl
  | cons first rest ih =>
    rw [bucketSearch, search, ih]
    rfl

structure Placed (members : Members) : Prop where
  ordered : ∀ inode index, Ordered cache.offset ((cache.inode inode).pageList index)
  hashed : ∀ inode index, ∀ page ∈ (cache.inode inode).pageList index,
    getPagelistIndex (cache.offset page) = index ∧ pageSize ∣ cache.offset page
  listed : ∀ inode page, page ∈ members inode ↔ ∃ index, page ∈ (cache.inode inode).pageList index
  counted : ∀ inode, (cache.inode inode).nrpages = (members inode).card

section

variable {cache after : Cache} {members : Members} {inode page : Nat}

section

variable (placed : Placed cache members)

include placed

theorem Placed.congr (pageList : ∀ inode, (after.inode inode).pageList = (cache.inode inode).pageList)
    (nrpages : ∀ inode, (after.inode inode).nrpages = (cache.inode inode).nrpages)
    (offset : ∀ page, Inserted cache page -> after.offset page = cache.offset page) : Placed after members where
  ordered inode index := by
    rw [pageList]
    exact (placed.ordered inode index).congr fun page member => offset page ⟨inode, index, member⟩
  hashed inode index page member := by
    rw [pageList] at member
    rw [offset page ⟨inode, index, member⟩]
    exact placed.hashed inode index page member
  listed inode page := by
    rw [pageList]
    exact placed.listed inode page
  counted inode := (nrpages inode).trans (placed.counted inode)

theorem Placed.bucket_iff {offset : Nat} :
    (∃ other ∈ (cache.inode inode).pageList (getPagelistIndex offset), cache.offset other = offset) ↔
      ∃ other ∈ members inode, cache.offset other = offset := by
  constructor
  · rintro ⟨other, member, same⟩
    exact ⟨other, (placed.listed inode other).2 ⟨_, member⟩, same⟩
  rintro ⟨other, member, same⟩
  obtain ⟨index, there⟩ := (placed.listed inode other).1 member
  have hash := (placed.hashed inode index other there).1
  rw [same] at hash
  exact ⟨other, hash ▸ there, same⟩

theorem Placed.offset_inj {other : Nat} (here : page ∈ members inode)
    (there : other ∈ members inode) (same : cache.offset page = cache.offset other) : page = other := by
  obtain ⟨index, here⟩ := (placed.listed inode page).1 here
  obtain ⟨index', there⟩ := (placed.listed inode other).1 there
  have bucket : index = index' := by
    rw [← (placed.hashed inode index page here).1, ← (placed.hashed inode index' other there).1, same]
  subst bucket
  exact (placed.ordered inode index).inj here there same

theorem Placed.search_iff {offset : Nat} :
    bucketSearch cache.page (offset / pageSize * pageSize) ((cache.inode inode).pageList (getPagelistIndex offset)) =
      some page ↔ page ∈ members inode ∧ cache.offset page = offset / pageSize * pageSize := by
  have hash : getPagelistIndex offset = getPagelistIndex (offset / pageSize * pageSize) := by
    rw [getPagelistIndex, getPagelistIndex, Nat.mul_div_cancel _ (by decide)]
  rw [bucketSearch_eq, (placed.ordered inode _).search_eq_some, placed.listed]
  refine and_congr_left fun same => ⟨fun member => ⟨_, member⟩, ?_⟩
  rintro ⟨index, member⟩
  have index_eq := (placed.hashed inode index page member).1
  rw [same, ← hash] at index_eq
  exact index_eq ▸ member

theorem Placed.insert {bucket : List Nat} {target : Option ListType}
    (absent : ∀ inode index, page ∉ (cache.inode inode).pageList index) (aligned : pageSize ∣ cache.offset page)
    (added : bucketInsert cache.page page ((cache.inode inode).pageList (getPagelistIndex (cache.offset page))) =
      some bucket) :
    Placed (refile (linkInode cache inode page bucket) page target)
      (update members inode (insert page (members inode))) := by
  have offset : (refile (linkInode cache inode page bucket) page target).offset = cache.offset := by
    funext other
    exact (same Page.offset (by rfl) other).trans (same Page.offset (by rfl) other)
  rw [bucketInsert_eq] at added
  have member (i index other : Nat) :
      other ∈ ((refile (linkInode cache inode page bucket) page target).inode i).pageList index ↔
        (i = inode ∧ index = getPagelistIndex (cache.offset page) ∧ other = page) ∨
          other ∈ (cache.inode i).pageList index := by
    change other ∈ ((linkInode cache inode page bucket).inode i).pageList index ↔ _
    rw [linkInode_pageList]
    split
    next same =>
      obtain ⟨rfl, rfl⟩ := same
      simp [mem_insert added, Cache.offset]
    next apart => simp [← and_assoc, Cache.offset, apart]
  have outside : page ∉ members inode := by
    rw [placed.listed]
    rintro ⟨index, member⟩
    exact absent inode index member
  constructor
  · intro i index
    change Ordered _ (((linkInode cache inode page bucket).inode i).pageList index)
    rw [offset, linkInode_pageList]
    split
    next same =>
      obtain ⟨rfl, rfl⟩ := same
      exact (placed.ordered i _).insert added
    next => exact placed.ordered i index
  · intro i index other there
    rw [offset]
    rcases (member i index other).1 there with ⟨-, rfl, rfl⟩ | old
    · exact ⟨rfl, aligned⟩
    · exact placed.hashed i index other old
  · intro i other
    simp only [member, exists_or]
    by_cases here : i = inode
    · subst here
      simp [placed.listed]
    · simp [here, placed.listed]
  · intro i
    by_cases here : i = inode
    · subst here
      rw [update_self, Finset.card_insert_of_notMem outside]
      simp [refile, linkInode, setPage, setInode, placed.counted i]
    · simp [refile, linkInode, setPage, setInode, here, placed.counted i]

theorem Placed.delete {place : Nat -> Option (Nat × Nat)} (inv : CacheInv cache place)
    {slot : Nat × Nat} (here : place page = some slot) (target : Option ListType) :
    Placed (refile (dropInode cache slot.1 page) page target)
      (update members slot.1 ((members slot.1).erase page)) := by
  have offset : (refile (dropInode cache slot.1 page) page target).offset = cache.offset := by
    funext other
    exact (same Page.offset (by rfl) other).trans (same Page.offset (by rfl) other)
  have pageList (i index : Nat) : ((refile (dropInode cache slot.1 page) page target).inode i).pageList index =
      ((cache.inode i).pageList index).erase page := rfl
  have nodup (i index : Nat) : ((cache.inode i).pageList index).Nodup := inv.buckets.nodup (i, index)
  have elsewhere (i index : Nat) (apart : i ≠ slot.1) : page ∉ (cache.inode i).pageList index := by
    rw [inv.buckets.agrees page (i, index), here, some.injEq]
    rintro rfl
    exact apart rfl
  constructor
  · intro i index
    rw [offset, pageList]
    exact (placed.ordered i index).sublist erase_sublist
  · intro i index other member
    rw [offset]
    exact placed.hashed i index other (mem_of_mem_erase member)
  · intro i other
    simp only [pageList, (nodup i _).mem_erase_iff]
    by_cases owner : i = slot.1
    · subst owner
      rw [update_self, Finset.mem_erase, placed.listed, ← exists_and_left]
    rw [update_of_ne owner, placed.listed]
    refine exists_congr fun index => ⟨fun member => ⟨?_, member⟩, And.right⟩
    rintro rfl
    exact elsewhere i index owner member
  intro i
  have count : ((refile (dropInode cache slot.1 page) page target).inode i).nrpages =
      if i = slot.1 then (cache.inode i).nrpages - 1 else (cache.inode i).nrpages := rfl
  rw [count, placed.counted]
  by_cases owner : i = slot.1
  · subst owner
    have member : page ∈ members slot.1 := (placed.listed slot.1 page).2 ⟨slot.2, (inv.buckets.agrees page slot).2 here⟩
    have smaller := Finset.card_erase_add_one member
    rw [if_pos rfl, update_self]
    omega
  · rw [if_neg owner, update_of_ne owner]

end

variable {usable : Nat -> Prop} {total : Int} {state next : State} {place : Nat -> Option (Nat × Nat)}

theorem StateInv.free_outside (inv : StateInv usable total state place)
    (outside : (state.cache.page page).listType = none ∨ (state.cache.page page).listType = some .free) :
    ¬ Inserted state.cache page := by
  rw [inv.cache.inserted_iff, inv.cache.unplaced outside]
  simp

theorem refile_offset (cache : Cache) (page : Nat) (target : Option ListType) (other : Nat) :
    (refile cache page target).offset other = cache.offset other :=
  same Page.offset (by rfl) other

theorem refileDirty_offset (cache : Cache) (page : Nat) (kind : ListType) (dirty : Bool) (other : Nat) :
    (refileDirty cache page kind dirty).offset other = cache.offset other :=
  (same Page.offset (by rfl) other).trans (same Page.offset (by rfl) other)

theorem Placed.step (inv : StateInv usable total state place) (placed : Placed state.cache members) {event : Event}
    (allowed : TrackAllowed (state, members) event) (moved : step state event = some next) :
    Placed next.cache (record state members event) := by
  obtain ⟨may, extra⟩ := allowed
  cases event with
  | getFreePage caller clearPage =>
    have stocked : (state.cache.list .free).queue ≠ [] := may
    obtain ⟨page, rest, first⟩ := exists_cons_of_ne_nil stocked
    have listed : (state.cache.page page).listType = some .free :=
      (inv.cache.lists.filed.agrees page .free).1 (by rw [first]; exact mem_cons_self)
    have ran : PageCache.step state (.getFreePage caller clearPage) =
        some ⟨pageInit (refile state.cache page none) page clearPage, (caller, page) :: state.held⟩ := by
      simp [PageCache.step, pcGetFreePage, pagelistRemove_eq inv.cache.lists, first]
    cases ran.symm.trans moved
    refine placed.congr (fun _ => rfl) (fun _ => rfl) fun other inserted => ?_
    -- the page that is cleared comes from the free list
    have different : other ≠ page := by
      rintro rfl
      exact inv.free_outside (.inr listed) inserted
    simp [Cache.offset, pageInit, setPage, refile, different]
  | insertPage caller inode page =>
    have held : page ∈ state.held.map Prod.snd := mem_map.2 ⟨_, may, rfl⟩
    have unlisted := inv.unlisted page held
    have outcome := pcInsertPage_eq inv.cache inode unlisted
    split_ifs at outcome with tooFar
    · simp only [PageCache.step, record, outcome] at moved ⊢
      cases moved
      exact placed
    cases search : bucketInsert state.cache.page page
        ((state.cache.inode inode).pageList (getPagelistIndex (state.cache.page page).offset)) with
    | none =>
      rw [search] at outcome
      simp only [PageCache.step, record, outcome] at moved ⊢
      cases moved
      exact placed
    | some bucket =>
      rw [search] at outcome
      simp only [PageCache.step, record, outcome] at moved ⊢
      cases moved
      refine placed.insert (fun i index member => ?_) extra search
      exact inv.free_outside (.inl unlisted) ⟨i, index, member⟩
  | putFreePage caller page =>
    have held : page ∈ state.held.map Prod.snd := mem_map.2 ⟨_, may, rfl⟩
    rw [PageCache.step, pcPutFreePage, pagelistAdd_eq inv.cache.lists (inv.unlisted page held)] at moved
    cases moved
    exact placed.congr (fun _ => rfl) (fun _ => rfl) fun other _ => refile_offset ..
  | pageDirted page =>
    rw [PageCache.step, pcPageDirted_eq inv.cache] at moved
    cases moved
    exact placed.congr (fun _ => rfl) (fun _ => rfl) fun other _ => refileDirty_offset ..
  | pagecleaned page =>
    obtain ⟨slot, here⟩ := isSome_iff_exists.1 ((inv.cache.inserted_iff page).1 may)
    rw [PageCache.step, pcPagecleaned_eq inv.cache here] at moved
    cases moved
    exact placed.congr (fun _ => rfl) (fun _ => rfl) fun other _ => refileDirty_offset ..
  | deletePage page =>
    obtain ⟨slot, here⟩ := isSome_iff_exists.1 ((inv.cache.inserted_iff page).1 may)
    have outcome := pcDeletePage_eq inv.cache here
    have owner := inv.cache.owned page slot here
    split_ifs at outcome with busy
    · simp only [PageCache.step, record, outcome, owner] at moved ⊢
      cases moved
      exact placed
    · simp only [PageCache.step, record, outcome, owner] at moved ⊢
      cases moved
      exact placed.delete inv.cache here (some .free)
  | environment after =>
    cases moved
    exact placed.congr may.pageList extra.2 extra.1

end

abbrev Tracks (len : Nat) (data : Nat -> UInt8) (entry : State × Members) : Prop :=
  Run.Reachable (· = (⟨pcInit len data, []⟩, fun _ => ∅)) trackStep TrackAllowed entry

theorem initPages_inode (limit : Int) (left page : Nat) (cache : Cache) :
    (initPages limit cache page left).inode = cache.inode := by
  induction left generalizing page cache with
  | zero => rfl
  | succ left ih =>
    rw [initPages, ih]
    split <;> rfl

theorem initCache_placed (limit : Int) (count : Nat) (data : Nat -> UInt8) :
    Placed (initCache limit count data) fun _ => ∅ := by
  have fresh (inode : Nat) : (initCache limit count data).inode inode = newInode :=
    congrFun (initPages_inode limit count 0 (emptyCache data)) inode
  constructor
  · intro inode index
    rw [fresh]
    exact .nil
  · intro inode index page member
    rw [fresh] at member
    cases member
  · intro inode page
    rw [fresh]
    simp [newInode]
  · intro inode
    rw [fresh]
    rfl

theorem Tracks.placed {len : Nat} {data : Nat -> UInt8} {entry : State × Members} (reached : Tracks len data entry) :
    Sound len data entry.1 ∧ Placed entry.1.cache entry.2 := by
  induction reached with
  | start first =>
    rw [first]
    exact ⟨⟨_, initCache_inv _ _ data⟩, initCache_placed _ _ data⟩
  | next _ may moved ih =>
    obtain ⟨⟨place, inv⟩, placed⟩ := ih
    obtain ⟨next, ran, rfl⟩ := map_eq_some_iff.1 moved
    obtain ⟨next', ran', sound⟩ := step_inv inv _ may.1
    cases ran.symm.trans ran'
    exact ⟨sound, placed.step inv may ran⟩

theorem page_lookup (len : Nat) (data : Nat -> UInt8) (state : State) (members : Members)
    (reached : Tracks len data (state, members)) (inode : Nat) :
    (∀ index, ((state.cache.inode inode).pageList index).Pairwise fun before after =>
      (state.cache.page after).offset < (state.cache.page before).offset) ∧
    (∀ page index, page ∈ (state.cache.inode inode).pageList index ↔
      page ∈ members inode ∧ getPagelistIndex (state.cache.page page).offset = index) ∧
    (state.cache.inode inode).nrpages = (members inode).card ∧
    (∀ caller page, (caller, page) ∈ state.held -> ∃ inserted after,
      pcInsertPage state.cache inode page = some (inserted, after) ∧
        (inserted = false ↔ (state.cache.page page).offset > (state.cache.inode inode).stSize ∨
          ∃ other ∈ members inode, (state.cache.page other).offset = (state.cache.page page).offset)) ∧
    ∀ offset, ∃ found after, pcGetInodePage state.cache inode offset = some (found, after) ∧
      ∀ page, found = some page ↔
        page ∈ members inode ∧ (state.cache.page page).offset = offset / pageSize * pageSize := by
  obtain ⟨⟨place, inv⟩, placed⟩ := reached.placed
  dsimp only at inv placed
  refine ⟨(placed.ordered inode), fun page index => ?_, placed.counted inode, ?_, fun offset => ?_⟩
  · rw [placed.listed]
    constructor
    · exact fun member => ⟨⟨index, member⟩, (placed.hashed inode index page member).1⟩
    · rintro ⟨⟨other, member⟩, rfl⟩
      rw [← (placed.hashed inode other page member).1] at member
      exact member
  · intro caller page held
    have unlisted := inv.unlisted page (mem_map.2 ⟨_, held, rfl⟩)
    rw [pcInsertPage_eq inv.cache inode unlisted]
    by_cases tooFar : (state.cache.inode inode).stSize < (state.cache.page page).offset
    · exact ⟨false, state.cache, by rw [if_pos tooFar], iff_of_true rfl (.inl tooFar)⟩
    rw [if_neg tooFar, bucketInsert_eq]
    have refused : Descending.insert state.cache.offset page
        ((state.cache.inode inode).pageList (getPagelistIndex (state.cache.page page).offset)) = none ↔ _ :=
      (placed.ordered inode _).insert_eq_none
    cases search : Descending.insert state.cache.offset page
        ((state.cache.inode inode).pageList (getPagelistIndex (state.cache.page page).offset)) with
    | none => exact ⟨false, state.cache, rfl, iff_of_true rfl (.inr (placed.bucket_iff.1 (refused.1 search)))⟩
    | some bucket =>
      refine ⟨true, _, rfl, iff_of_false (by simp) ?_⟩
      rintro (far | taken)
      · exact tooFar far
      · have full := refused.2 (placed.bucket_iff.2 taken)
        rw [search] at full
        cases full
  · have found (page : Nat) : bucketSearch state.cache.page (offset / pageSize * pageSize)
        ((state.cache.inode inode).pageList (getPagelistIndex offset)) = some page ↔
          page ∈ members inode ∧ (state.cache.page page).offset = offset / pageSize * pageSize := placed.search_iff
    rw [pcGetInodePage]
    cases search : bucketSearch state.cache.page (offset / pageSize * pageSize)
        ((state.cache.inode inode).pageList (getPagelistIndex offset)) with
    | none => exact ⟨none, state.cache, rfl, fun page => by rw [← search]; exact found page⟩
    | some page =>
      obtain ⟨index, member⟩ := (placed.listed inode page).1 ((found page).1 search).1
      have owner := inv.cache.owned page (inode, index) ((inv.cache.buckets.agrees page (inode, index)).1 member)
      have got : pcGetPage state.cache page =
          some (setPage state.cache page { state.cache.page page with count := (state.cache.page page).count + 1 }) := by
        rw [pcGetPage, owner]
      refine ⟨some page, _, congrArg (Option.map fun cache => (some page, cache)) got, fun other => ?_⟩
      rw [← search]
      exact found other

theorem page_lookup_smallCache : ∃ state members, Tracks (117 * pageSize) (fun _ => 0) (state, members) ∧
    members 0 = {115} ∧ (state.cache.inode 0).nrpages = 1 := by
  have outcome : ((trackStep (smallCache, fun _ => ∅) (.getFreePage 7 true)).bind fun middle =>
      if (7, 115) ∈ middle.1.held ∧ (middle.1.cache.page 115).offset = 0 then trackStep middle (.insertPage 7 0 115)
      else none).any (fun entry => entry.2 0 = {115}) = true := by decide +kernel
  obtain ⟨⟨state, members⟩, ran, facts⟩ := Run.holds_of_any outcome
  have inserted : members 0 = {115} := facts
  obtain ⟨middle, taken, ran⟩ := Run.bind_iff.1 ran
  split_ifs at ran with held
  have mayTake : TrackAllowed (smallCache, fun _ => ∅) (.getFreePage 7 true) := ⟨smallCache_free, trivial⟩
  have mayInsert : TrackAllowed middle (.insertPage 7 0 115) := ⟨held.1, by
    dsimp only
    rw [held.2]
    exact Nat.dvd_zero _⟩
  have reached : Tracks (117 * pageSize) (fun _ => 0) (state, members) :=
    .next (.next (.start rfl) mayTake taken) mayInsert ran
  have count := (page_lookup _ _ state members reached 0).2.2.1
  rw [inserted] at count
  exact ⟨state, members, reached, inserted, count⟩

end JinyKernel.PageCache
