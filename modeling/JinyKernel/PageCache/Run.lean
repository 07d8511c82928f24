import JinyKernel.PageCache.Ops
import JinyKernel.Shared.Run

namespace JinyKernel.PageCache

open Filing Function List Option

-- `held` are the pages between `pc_getFreePage` and the call that gives them away, with their callers.
structure State where
  cache : Cache
  held : List (Nat × Nat)

inductive Event where
  | getFreePage (caller : Nat) (clearPage : Bool)
  | insertPage (caller inode page : Nat)
  | putFreePage (caller page : Nat)
  | pageDirted (page : Nat)
  | pagecleaned (page : Nat)
  | deletePage (page : Nat)
  | environment (after : Cache)

def step (state : State) : Event -> Option State
  | .getFreePage caller clearPage => do
      -- Housekeeping starts only on an empty free list.
      let (page, cache) ← pcGetFreePage (fun _ => none) state.cache clearPage
      some ⟨cache, (caller, page) :: state.held⟩
  | .insertPage caller inode page => do
      let (ok, cache) ← pcInsertPage state.cache inode page
      some ⟨cache, if ok then state.held.erase (caller, page) else state.held⟩
  | .putFreePage caller page =>
    some ⟨pcPutFreePage state.cache page, state.held.erase (caller, page)⟩
  | .pageDirted page => some ⟨pcPageDirted state.cache page, state.held⟩
  | .pagecleaned page => do
      let cache ← pcPagecleaned state.cache page
      some ⟨cache, state.held⟩
  | .deletePage page => do
      let (_, cache) ← pcDeletePage state.cache page
      some ⟨cache, state.held⟩
  | .environment after => some ⟨after, state.held⟩

def Inserted (cache : Cache) (page : Nat) : Prop := ∃ inode index, page ∈ (cache.inode inode).pageList index

-- What may not change between the calls.
structure OutsideCalls (before after : Cache) : Prop extends SameLinks before after (Inserted before) where
  totalPages : after.totalPages = before.totalPages

def Allowed (state : State) : Event -> Prop
  | .getFreePage _ _ => (state.cache.list .free).queue ≠ []
  | .insertPage caller _ page => (caller, page) ∈ state.held
  | .putFreePage caller page => (caller, page) ∈ state.held
  | .pageDirted page => Inserted state.cache page
  | .pagecleaned page => Inserted state.cache page
  | .deletePage page => Inserted state.cache page
  | .environment after => OutsideCalls state.cache after

structure StateInv (usable : Nat -> Prop) (total : Int) (state : State) (place : Nat -> Option (Nat × Nat)) : Prop where
  cache : CacheInv state.cache place
  once : (state.held.map Prod.snd).Nodup
  unlisted : ∀ page ∈ state.held.map Prod.snd, (state.cache.page page).listType = none
  everywhere : ∀ page, usable page ↔
    (state.cache.page page).listType.isSome ∨ page ∈ state.held.map Prod.snd
  total : state.cache.totalPages = total

section

variable {usable : Nat -> Prop} {total : Int} {state : State} {place place' : Nat -> Option (Nat × Nat)} {after : Cache}

theorem CacheInv.inserted_iff {cache : Cache} (inv : CacheInv cache place) (page : Nat) :
    Inserted cache page ↔ (place page).isSome := by
  rw [isSome_iff_exists]
  constructor
  · rintro ⟨inode, index, member⟩
    exact ⟨(inode, index), (inv.buckets.agrees page (inode, index)).1 member⟩
  · rintro ⟨slot, here⟩
    exact ⟨slot.1, slot.2, (inv.buckets.agrees page slot).2 here⟩

variable (inv : StateInv usable total state place)

include inv

theorem StateInv.stay (cache : CacheInv after place')
    (same : ∀ page, (after.page page).listType.isSome = (state.cache.page page).listType.isSome)
    (totalPages : after.totalPages = state.cache.totalPages) :
    StateInv usable total ⟨after, state.held⟩ place' where
  cache := cache
  once := inv.once
  unlisted page member := by
    have before := inv.unlisted page member
    rw [← not_isSome_iff_eq_none] at before ⊢
    rwa [same page]
  everywhere page := by simpa only [same page] using inv.everywhere page
  total := totalPages.trans inv.total

variable {caller page : Nat}

theorem StateInv.pick (cache : CacheInv after place') (before : (state.cache.page page).listType.isSome)
    (unlisted : (after.page page).listType = none)
    (same : ∀ other, other ≠ page -> (after.page other).listType = (state.cache.page other).listType)
    (totalPages : after.totalPages = state.cache.totalPages) :
    StateInv usable total ⟨after, (caller, page) :: state.held⟩ place' where
  cache := cache
  once := by
    refine nodup_cons.2 ⟨fun member => ?_, inv.once⟩
    simp [inv.unlisted page member] at before
  unlisted other member := by
    by_cases isPage : other = page
    · rw [isPage, unlisted]
    · rw [same other isPage]
      exact inv.unlisted other ((mem_cons.1 member).resolve_left isPage)
  everywhere other := by
    by_cases isPage : other = page
    · subst isPage
      simp [inv.everywhere other, before]
    · simp [inv.everywhere other, same other isPage, isPage]
  total := totalPages.trans inv.total

theorem StateInv.give (cache : CacheInv after place') (member : (caller, page) ∈ state.held)
    (listed : (after.page page).listType.isSome)
    (same : ∀ other, other ≠ page -> (after.page other).listType = (state.cache.page other).listType)
    (totalPages : after.totalPages = state.cache.totalPages) :
    StateInv usable total ⟨after, state.held.erase (caller, page)⟩ place' := by
  have perm : (state.held.map Prod.snd).Perm (page :: (state.held.erase (caller, page)).map Prod.snd) :=
    (perm_cons_erase member).map Prod.snd
  have once := nodup_cons.1 (perm.nodup_iff.1 inv.once)
  refine ⟨cache, once.2, ?_, ?_, totalPages.trans inv.total⟩
  · intro other still
    have different : other ≠ page := fun isPage => once.1 (isPage ▸ still)
    rw [same other different]
    exact inv.unlisted other (perm.mem_iff.2 (mem_cons_of_mem _ still))
  intro other
  rw [inv.everywhere other, perm.mem_iff]
  by_cases isPage : other = page
  · subst isPage
    simp [listed]
  · simp [same other isPage, isPage]

theorem StateInv.refileDirty_listed (inserted : (place page).isSome) (kind : ListType) (dirty : Bool) (other : Nat) :
    ((refileDirty state.cache page kind dirty).page other).listType.isSome =
      (state.cache.page other).listType.isSome := by
  obtain ⟨before, -, listed⟩ := (inv.cache.cached page).1 inserted
  by_cases same : other = page
  · subst same
    simp [refileDirty, refile, setPage, listed]
  · simp [refileDirty, refile, setPage, same]

theorem step_inv (event : Event) (allowed : Allowed state event) :
    ∃ next, step state event = some next ∧ ∃ place', StateInv usable total next place' := by
  cases event with
  | getFreePage caller clearPage =>
    obtain ⟨page, rest, first⟩ := exists_cons_of_ne_nil allowed
    have listed : (state.cache.page page).listType = some .free :=
      (inv.cache.lists.filed.agrees page .free).1 (by simp [first])
    have removed := inv.cache.refile page none (by simp [inv.cache.unplaced (.inr listed)])
    have cleared := removed.pageInit page (by simp [refile]) clearPage
    refine ⟨⟨pageInit (refile state.cache page none) page clearPage, (caller, page) :: state.held⟩, ?_, place, ?_⟩
    · simp [step, pcGetFreePage, pagelistRemove_eq inv.cache.lists, first]
    · apply inv.pick cleared (by simp [listed]) (by simp [pageInit, setPage, blankPage]) _ rfl
      intro other different
      simp [pageInit, setPage, refile, different]
  | insertPage caller inode page =>
    have held : page ∈ state.held.map Prod.snd := mem_map.2 ⟨_, allowed, rfl⟩
    have unlisted := inv.unlisted page held
    have outcome := pcInsertPage_eq inv.cache inode unlisted
    cases search : bucketInsert state.cache.page page
        ((state.cache.inode inode).pageList (getPagelistIndex (state.cache.page page).offset)) with
    | none =>
      refine ⟨state, ?_, place, inv⟩
      simp [step, outcome, search]
    | some bucket =>
      by_cases tooFar : (state.cache.inode inode).stSize < (state.cache.page page).offset
      · refine ⟨state, ?_, place, inv⟩
        simp [step, outcome, tooFar]
      refine ⟨⟨refile (linkInode state.cache inode page bucket) page (some (insertTarget state.cache inode)),
        state.held.erase (caller, page)⟩, by simp [step, outcome, search, tooFar], _,
        inv.give (inv.cache.insert inode unlisted search) allowed (by simp [refile]) ?_ rfl⟩
      intro other different
      simp [refile, linkInode, setPage, setInode, different]
  | putFreePage caller page =>
    have held : page ∈ state.held.map Prod.snd := mem_map.2 ⟨_, allowed, rfl⟩
    have unlisted := inv.unlisted page held
    have filed := pcPutFreePage_inv inv.cache unlisted
    rw [pcPutFreePage, pagelistAdd_eq inv.cache.lists unlisted] at filed
    refine ⟨_, by rw [step, pcPutFreePage, pagelistAdd_eq inv.cache.lists unlisted], place,
      inv.give filed allowed (by simp [refile]) ?_ rfl⟩
    intro other different
    simp [refile, different]
  | pageDirted page =>
    have inserted := (inv.cache.inserted_iff page).1 allowed
    refine ⟨_, by rw [step, pcPageDirted_eq inv.cache], place, ?_⟩
    exact inv.stay (inv.cache.refileDirty inserted (by decide) true) (inv.refileDirty_listed inserted _ _) rfl
  | pagecleaned page =>
    have inserted := (inv.cache.inserted_iff page).1 allowed
    obtain ⟨slot, here⟩ := isSome_iff_exists.1 inserted
    refine ⟨⟨refileDirty state.cache page (cleanTarget state.cache slot.1) false, state.held⟩, ?_, place, ?_⟩
    · simp [step, pcPagecleaned_eq inv.cache here]
    · exact inv.stay (inv.cache.refileDirty inserted (cleanTarget_ne _ _) false)
        (inv.refileDirty_listed inserted _ _) rfl
  | deletePage page =>
    have inserted := (inv.cache.inserted_iff page).1 allowed
    obtain ⟨slot, here⟩ := isSome_iff_exists.1 inserted
    obtain ⟨kind, -, listed⟩ := (inv.cache.cached page).1 inserted
    by_cases busy : (state.cache.page page).count ≠ 0 ∨ (state.cache.inode slot.1).executing = true
    · refine ⟨state, ?_, place, inv⟩
      simp only [step, pcDeletePage_eq inv.cache here, if_pos busy]
      rfl
    refine ⟨⟨refile (dropInode state.cache slot.1 page) page (some .free), state.held⟩, ?_, _,
      inv.stay (inv.cache.delete slot.1 page) ?_ rfl⟩
    · simp only [step, pcDeletePage_eq inv.cache here, if_neg busy]
      rfl
    intro other
    by_cases same : other = page
    · subst same
      simp [refile, listed]
    · simp [refile, dropInode, same]
  | environment after =>
    have kept := inv.cache.retouch { allowed.toSameLinks with
      fsInode := fun page here => allowed.fsInode page ((inv.cache.inserted_iff page).2 here) }
    exact ⟨_, rfl, place, inv.stay kept (fun page => by rw [allowed.listType]) allowed.totalPages⟩

end

def usablePages (limit : Int) (count : Nat) : Finset Nat := (Finset.range count).filter fun page => limit ≤ page

def usable (len : Nat) : Finset Nat := usablePages (reservedLimit (cachePages len)) (cachePages len).toNat

theorem initPages_inv (limit : Int) (left page : Nat) (cache : Cache) (inv : CacheInv cache fun _ => none)
    (filed : ∀ other, (cache.page other).listType.isSome ↔ limit ≤ other ∧ other < page) :
    CacheInv (initPages limit cache page left) (fun _ => none) ∧
      ∀ other, ((initPages limit cache page left).page other).listType.isSome ↔
        limit ≤ other ∧ other < page + left := by
  induction left generalizing cache page with
  | zero => exact ⟨inv, filed⟩
  | succ left ih =>
    have unlisted : (cache.page page).listType = none := by
      rw [← not_isSome_iff_eq_none, filed]
      omega
    have clean := inv.pageInit page unlisted true
    have blank : ((pageInit cache page true).page page).listType = none := by simp [pageInit, setPage, blankPage]
    rw [initPages]
    split_ifs with reserved
    · have next := ih (page + 1) _ clean fun other => by
        by_cases same : other = page
        · subst same
          simp only [blank, isSome_none, Bool.false_eq_true, false_iff]
          omega
        · simp only [pageInit, setPage, update_of_ne same, filed]
          omega
      exact ⟨next.1, fun other => by rw [next.2]; omega⟩
    rw [pagelistAdd_eq clean.lists blank]
    have next := ih (page + 1) _ (clean.refile page (some .free) (by simp)) fun other => by
      by_cases same : other = page
      · subst same
        simp only [refile, update_self, isSome_some, true_iff]
        omega
      · simp only [refile, pageInit, setPage, update_of_ne same, filed]
        omega
    exact ⟨next.1, fun other => by rw [next.2]; omega⟩

theorem emptyCache_inv (data : Nat -> UInt8) : CacheInv (emptyCache data) fun _ => none :=
  ⟨⟨Filed.empty, fun _ => rfl, fun _ => rfl⟩, Filed.empty, fun _ => rfl, by simp, by simp [emptyCache, blankPage]⟩

theorem CacheInv.withTotal {cache : Cache} {place : Nat -> Option (Nat × Nat)} (inv : CacheInv cache place)
    (total : Int) :
    CacheInv { cache with totalPages := total } place :=
  inv.retouch ⟨rfl, fun _ => rfl, fun _ => rfl, fun _ => rfl, fun _ => rfl, fun _ _ => rfl⟩

section

variable (limit : Int) (count : Nat) (data : Nat -> UInt8)

theorem initCache_inv : StateInv (· ∈ usablePages limit count) (initCache limit count data).totalPages
      ⟨initCache limit count data, []⟩ fun _ => none := by
  have filled := initPages_inv limit count 0 _ (emptyCache_inv data) (by simp [emptyCache, blankPage])
  refine ⟨filled.1.withTotal _, by simp, by simp, fun page => ?_, rfl⟩
  simp only [map_nil, not_mem_nil, or_false, usablePages, Finset.mem_filter, Finset.mem_range]
  rw [initCache, filled.2 page, Nat.zero_add, and_comm]

theorem StateInv.balance {pages : Finset Nat} {total : Int} {state : State} {place : Nat -> Option (Nat × Nat)}
    (inv : StateInv (· ∈ pages) total state place) :
    ∑ kind, (state.cache.list kind).queue.length + state.held.length = pages.card := by
  have listed (kind : ListType) (page : Nat) (member : page ∈ (state.cache.list kind).queue) :
      (state.cache.page page).listType = some kind := (inv.cache.lists.filed.agrees page kind).1 member
  have shares := inv.cache.lists.filed.card pages fun kind page member =>
    (inv.everywhere page).2 (.inl (by simp [listed kind page member]))
  have rest : (pages.filter fun page => (state.cache.page page).listType = none).card = state.held.length := by
    have length : (state.held.map Prod.snd).length = state.held.length := length_map ..
    rw [← length, ← toFinset_card_of_nodup inv.once]
    refine congrArg Finset.card (Finset.ext fun page => ?_)
    rw [Finset.mem_filter, List.mem_toFinset, inv.everywhere page]
    constructor
    · rintro ⟨listed | held, loose⟩
      · simp [loose] at listed
      · exact held
    · exact fun held => ⟨.inr held, inv.unlisted page held⟩
  omega

theorem initCache_total : (initCache limit count data).totalPages = (usablePages limit count).card := by
  have inv := initCache_inv limit count data
  have others (kind : ListType) (notFree : kind ≠ .free) : ((initCache limit count data).list kind).queue = [] := by
    rw [eq_nil_iff_forall_not_mem]
    intro page member
    have listed := (inv.cache.lists.filed.agrees page kind).1 member
    simpa using (inv.cache.cached page).2 ⟨kind, notFree, listed⟩
  have balance := inv.balance
  rw [Finset.sum_eq_single ListType.free (fun kind _ notFree => by simp [others kind notFree]) (by simp)] at balance
  have isCount : (initCache limit count data).totalPages = ((initCache limit count data).list .free).count := rfl
  rw [isCount, inv.cache.lists.counts, ← balance]
  simp

end

abbrev Reaches (len : Nat) (data : Nat -> UInt8) (state : State) : Prop :=
  Run.Reachable (· = ⟨pcInit len data, []⟩) step Allowed state

def Sound (len : Nat) (data : Nat -> UInt8) (state : State) : Prop :=
  ∃ place, StateInv (· ∈ usable len) (pcInit len data).totalPages state place

theorem Reaches.sound {len : Nat} {data : Nat -> UInt8} {state : State} (reached : Reaches len data state) :
    Sound len data state ∧ ∀ event, Allowed state event -> (step state event).isSome := by
  refine Run.Reachable.progress ?_ ?_ reached
  · rintro first rfl
    exact ⟨_, initCache_inv _ _ data⟩
  · rintro current event ⟨place, inv⟩ allowed
    exact step_inv inv event allowed

theorem reachable_pages_filed_once (len : Nat) (data : Nat -> UInt8) (state : State) (reached : Reaches len data state) :
    (∀ page ∈ usable len,
      (∃ kind, (state.cache.list kind).queue.count page = 1 ∧ (state.cache.page page).listType = some kind ∧
        (∀ other, other ≠ kind -> page ∉ (state.cache.list other).queue) ∧ page ∉ state.held.map Prod.snd) ∨
      ((∃! caller, (caller, page) ∈ state.held) ∧ (state.held.map Prod.snd).count page = 1 ∧
        ∀ kind, page ∉ (state.cache.list kind).queue)) ∧
    (∀ kind, (state.cache.list kind).count = (state.cache.list kind).queue.length ∧
      ∀ page ∈ (state.cache.list kind).queue, page ∈ usable len ∧ (state.cache.page page).listType = some kind) ∧
    ∑ kind, (state.cache.list kind).count + state.held.length = (pcInit len data).totalPages ∧
    state.cache.totalPages = (pcInit len data).totalPages ∧
    ∀ event, Allowed state event -> (step state event).isSome := by
  obtain ⟨⟨place, inv⟩, progress⟩ := reached.sound
  have filed := inv.cache.lists.filed
  refine ⟨?_, ?_, ?_, inv.total, progress⟩
  · intro page isUsable
    cases listed : (state.cache.page page).listType with
    | some kind =>
      left
      have member := (filed.agrees page kind).2 listed
      refine ⟨kind, count_eq_one_of_mem (filed.nodup kind) member, rfl, ?_, ?_⟩
      · intro other different
        rw [filed.agrees, listed]
        simpa using Ne.symm different
      · intro held
        simp [inv.unlisted page held] at listed
    | none =>
      right
      have held := ((inv.everywhere page).1 isUsable).resolve_left (by simp [listed])
      refine ⟨?_, count_eq_one_of_mem inv.once held, filed.absent listed⟩
      obtain ⟨⟨caller, _⟩, member, rfl⟩ := mem_map.1 held
      refine ⟨caller, member, fun other also => ?_⟩
      exact (Prod.mk.inj (inj_on_of_nodup_map inv.once also member rfl)).1
  · intro kind
    refine ⟨inv.cache.lists.counts kind, fun page member => ?_⟩
    have listed := (filed.agrees page kind).1 member
    exact ⟨(inv.everywhere page).2 (.inl (by simp [listed])), listed⟩
  · rw [pcInit, initCache_total, ← usable, ← inv.balance]
    simp [inv.cache.lists.counts]

def smallCache : State := ⟨pcInit (117 * pageSize) fun _ => 0, []⟩

theorem smallCache_take : (step smallCache (.getFreePage 7 true)).map State.held = some [(7, 115)] := by
  decide +kernel

theorem smallCache_free : Allowed smallCache (.getFreePage 7 true) := by
  intro empty
  have first : (smallCache.cache.list .free).queue.head? = some 115 := by decide +kernel
  simp [empty] at first

theorem reachable_pages_filed_once_smallCache :
    ∃ state, Reaches (117 * pageSize) (fun _ => 0) state ∧ state.held = [(7, 115)] ∧
      ∑ kind, (state.cache.list kind).count + state.held.length = smallCache.cache.totalPages := by
  obtain ⟨state, taken, held⟩ := map_eq_some_iff.1 smallCache_take
  have reached : Reaches (117 * pageSize) (fun _ => 0) state := .next (.start rfl) smallCache_free taken
  exact ⟨state, reached, held, (reachable_pages_filed_once _ _ state reached).2.2.1⟩

end JinyKernel.PageCache
