import JinyKernel.PageCache.Lists

namespace JinyKernel.PageCache

open Filing Function Option Updates

-- `place` is the bucket a page is in; it has one exactly when it is on a list other than the free list.
structure CacheInv (cache : Cache) (place : Nat -> Option (Nat × Nat)) : Prop where
  lists : ListsInv cache
  buckets : Filed (fun slot : Nat × Nat => (cache.inode slot.1).pageList slot.2) place
  linked : ∀ page, (cache.page page).listLinked = (place page).isSome
  owned : ∀ page slot, place page = some slot -> (cache.page page).fsInode = some slot.1
  cached : ∀ page, (place page).isSome ↔ ∃ kind, kind ≠ ListType.free ∧ (cache.page page).listType = some kind

structure SameLinks (before after : Cache) (owned : Nat -> Prop) : Prop where
  list : after.list = before.list
  pageList : ∀ inode, (after.inode inode).pageList = (before.inode inode).pageList
  lruLinked : ∀ page, (after.page page).lruLinked = (before.page page).lruLinked
  listType : ∀ page, (after.page page).listType = (before.page page).listType
  listLinked : ∀ page, (after.page page).listLinked = (before.page page).listLinked
  fsInode : ∀ page, owned page -> (after.page page).fsInode = (before.page page).fsInode

variable {cache after : Cache} {place : Nat -> Option (Nat × Nat)}

theorem ListsInv.congr (inv : ListsInv cache) (list : after.list = cache.list)
    (lruLinked : ∀ page, (after.page page).lruLinked = (cache.page page).lruLinked)
    (listType : ∀ page, (after.page page).listType = (cache.page page).listType) : ListsInv after where
  filed := by simpa only [list, listType] using inv.filed
  counts := by simpa only [list] using inv.counts
  linked := by simpa only [lruLinked, listType] using inv.linked

theorem CacheInv.retouch (inv : CacheInv cache place) (same : SameLinks cache after fun page => (place page).isSome) :
    CacheInv after place where
  lists := inv.lists.congr same.list same.lruLinked same.listType
  buckets := by simpa only [same.pageList] using inv.buckets
  linked := by simpa only [same.listLinked] using inv.linked
  owned page slot here := by
    rw [same.fsInode page (by simp [here])]
    exact inv.owned page slot here
  cached := by simpa only [same.listType] using inv.cached

theorem setPage_sameLinks (cache : Cache) {owned : Nat -> Prop} (page : Nat) (value : Page)
    (lruLinked : value.lruLinked = (cache.page page).lruLinked) (listType : value.listType = (cache.page page).listType)
    (listLinked : value.listLinked = (cache.page page).listLinked)
    (fsInode : owned page -> value.fsInode = (cache.page page).fsInode) :
    SameLinks cache (setPage cache page value) owned := by
  refine ⟨rfl, fun _ => rfl, same Page.lruLinked lruLinked, same Page.listType listType,
    same Page.listLinked listLinked, fun other placed => ?_⟩
  by_cases same : other = page
  · subst same
    simpa [setPage] using fsInode placed
  · simp [setPage, same]

section

variable (inv : CacheInv cache place)

include inv

theorem CacheInv.refile (page : Nat) (target : Option ListType)
    (allowed : (place page).isSome ↔ ∃ kind, kind ≠ ListType.free ∧ target = some kind) :
    CacheInv (refile cache page target) place where
  lists := refile_inv inv.lists page target
  buckets := inv.buckets
  linked other := (same Page.listLinked (by rfl) other).trans (inv.linked other)
  owned other slot here := (same Page.fsInode (by rfl) other).trans (inv.owned other slot here)
  cached other := by
    by_cases same : other = page
    · subst same
      simpa [PageCache.refile] using allowed
    · simpa [PageCache.refile, same] using inv.cached other

theorem CacheInv.unplaced {page : Nat}
    (outside : (cache.page page).listType = none ∨ (cache.page page).listType = some .free) : place page = none := by
  rw [← not_isSome_iff_eq_none, inv.cached]
  rintro ⟨kind, notFree, listed⟩
  rcases outside with held | free
  · simp [held] at listed
  · rw [free] at listed
    exact notFree (some.inj listed).symm

theorem CacheInv.pageInit (page : Nat) (unlisted : (cache.page page).listType = none)
    (clearPage : Bool) : CacheInv (pageInit cache page clearPage) place := by
  have unplaced := inv.unplaced (.inl unlisted)
  have lruBit : (cache.page page).lruLinked = false := by simp [inv.lists.linked, unlisted]
  have listBit : (cache.page page).listLinked = false := by simp [inv.linked, unplaced]
  have blanked := inv.retouch (setPage_sameLinks cache page blankPage lruBit.symm unlisted.symm listBit.symm
    (by simp [unplaced]))
  exact blanked.retouch ⟨rfl, fun _ => rfl, fun _ => rfl, fun _ => rfl, fun _ => rfl, fun _ _ => rfl⟩

def refileDirty (cache : Cache) (page : Nat) (kind : ListType) (dirty : Bool) : Cache :=
  let moved := PageCache.refile cache page (some kind)
  setPage moved page { moved.page page with dirty := dirty }

theorem CacheInv.refileDirty {page : Nat} (inserted : (place page).isSome)
    {kind : ListType} (notFree : kind ≠ .free) (dirty : Bool) :
    CacheInv (refileDirty cache page kind dirty) place := by
  have moved := inv.refile page (some kind) (by simpa [inserted] using notFree)
  exact moved.retouch (setPage_sameLinks _ _ _ rfl rfl rfl fun _ => rfl)

theorem pcPageDirted_eq (page : Nat) :
    pcPageDirted cache page = PageCache.refileDirty cache page .dirty true := by
  rw [pcPageDirted, pagelistMove_eq inv.lists]
  rfl

def cleanTarget (cache : Cache) (inode : Nat) : ListType :=
  if (cache.inode inode).shortLived then .active else .inactive

theorem pcPagecleaned_eq {page : Nat} {slot : Nat × Nat} (here : place page = some slot) :
    pcPagecleaned cache page = some (PageCache.refileDirty cache page (cleanTarget cache slot.1) false) := by
  simp only [pcPagecleaned, inv.owned page slot here, pagelistMove_eq inv.lists]
  rfl

end

theorem cleanTarget_ne (cache : Cache) (inode : Nat) : cleanTarget cache inode ≠ .free := by
  rw [cleanTarget]
  split_ifs <;> decide

variable {page : Nat}

theorem pcPutFreePage_inv (inv : CacheInv cache place) (unlisted : (cache.page page).listType = none) :
    CacheInv (pcPutFreePage cache page) place := by
  rw [pcPutFreePage, pagelistAdd_eq inv.lists unlisted]
  exact inv.refile page _ (by simp [inv.unplaced (.inl unlisted)])

theorem bucketInsert_perm (pages : Nat -> Page) (page : Nat) (bucket : List Nat) {longer : List Nat}
    (added : bucketInsert pages page bucket = some longer) : longer.Perm (page :: bucket) := by
  induction bucket generalizing longer with
  | nil =>
    cases added
    exact List.Perm.refl _
  | cons tmpPage rest ih =>
    rw [bucketInsert] at added
    split_ifs at added with equal before
    · cases added
      exact List.Perm.refl _
    · obtain ⟨tail, inserted, rfl⟩ := map_eq_some_iff.1 added
      exact ((ih inserted).cons tmpPage).trans (List.Perm.swap page tmpPage rest)

def linkInode (cache : Cache) (inode page : Nat) (bucket : List Nat) : Cache :=
  let owner := cache.inode inode
  let entry := cache.page page
  setPage (setInode cache inode { owner with
      nrpages := owner.nrpages + 1
      pageList := update owner.pageList (getPagelistIndex entry.offset) bucket }) page
    { entry with
      fsInode := some inode
      listLinked := true
      age := if owner.executing then ageYoungest else ageEldest }

theorem linkInode_pageList (cache : Cache) (inode page : Nat) (bucket : List Nat) (i index : Nat) :
    ((linkInode cache inode page bucket).inode i).pageList index =
      if i = inode ∧ index = getPagelistIndex (cache.page page).offset then bucket else (cache.inode i).pageList
        index := by
  by_cases here : i = inode
  · subst here
    simp [linkInode, setPage, setInode, update_apply]
  · simp [linkInode, setPage, setInode, here]

theorem linkInode_lists (inv : ListsInv cache) (inode page : Nat) (bucket : List Nat) :
    ListsInv (linkInode cache inode page bucket) :=
  inv.congr rfl (same Page.lruLinked (by rfl)) (same Page.listType (by rfl))

def insertTarget (cache : Cache) (inode : Nat) : ListType :=
  if (cache.inode inode).executing then .active else .inactive

theorem insertTarget_ne (cache : Cache) (inode : Nat) : insertTarget cache inode ≠ .free := by
  rw [insertTarget]
  split_ifs <;> decide

theorem pcInsertPage_eq (inv : CacheInv cache place) (inode : Nat) (unlisted : (cache.page page).listType = none) :
    pcInsertPage cache inode page = some (
      if (cache.inode inode).stSize < (cache.page page).offset then (false, cache)
      else
        match bucketInsert cache.page page
            ((cache.inode inode).pageList (getPagelistIndex (cache.page page).offset)) with
        | none => (false, cache)
        | some bucket =>
          (true, PageCache.refile (linkInode cache inode page bucket) page (some (insertTarget cache inode)))) := by
  have unlinked : ¬ ((cache.page page).listLinked = true ∨ (cache.page page).lruLinked = true) := by
    simp [inv.linked, inv.lists.linked, inv.unplaced (.inl unlisted), unlisted]
  rw [pcInsertPage]
  by_cases tooFar : (cache.inode inode).stSize < (cache.page page).offset
  · simp only [if_pos tooFar]
  simp only [if_neg tooFar, if_neg unlinked]
  cases bucketInsert cache.page page ((cache.inode inode).pageList (getPagelistIndex (cache.page page).offset)) with
  | none => rfl
  | some bucket =>
    have stillUnlisted : ((linkInode cache inode page bucket).page page).listType = none := by
      simpa [linkInode, setPage] using unlisted
    exact congrArg (fun added => some (true, added)) (pagelistAdd_eq (linkInode_lists inv.lists inode page bucket)
      stillUnlisted _)

theorem CacheInv.insert (inv : CacheInv cache place) (inode : Nat) {bucket : List Nat}
    (unlisted : (cache.page page).listType = none) (added : bucketInsert cache.page page
      ((cache.inode inode).pageList (getPagelistIndex (cache.page page).offset)) = some bucket) :
    CacheInv (PageCache.refile (linkInode cache inode page bucket) page (some (insertTarget cache inode)))
      (update place page (some (inode, getPagelistIndex (cache.page page).offset))) := by
  set index := getPagelistIndex (cache.page page).offset with indexDef
  have notFree := insertTarget_ne cache inode
  have filed := inv.buckets.put (inode, index) page (inv.unplaced (.inl unlisted))
    (bucketInsert_perm cache.page page _ added)
  have buckets : (fun slot : Nat × Nat => ((linkInode cache inode page bucket).inode slot.1).pageList slot.2) =
      update (fun slot : Nat × Nat => (cache.inode slot.1).pageList slot.2) (inode, index) bucket := by
    funext slot
    simp [linkInode_pageList, update_apply, Prod.ext_iff, ← indexDef]
  refine ⟨refile_inv (linkInode_lists inv.lists inode page bucket) page _,
    Eq.mpr (congrArg (Filed · _) buckets) filed, ?_, ?_, ?_⟩
  · intro other
    by_cases same : other = page
    · subst same
      simp [PageCache.refile, linkInode, setPage]
    · simpa [PageCache.refile, linkInode, setPage, setInode, same] using inv.linked other
  · intro other slot here
    by_cases same : other = page
    · subst same
      rw [update_self, some.injEq] at here
      simp [PageCache.refile, linkInode, setPage, ← here]
    · rw [update_of_ne same] at here
      simpa [PageCache.refile, linkInode, setPage, setInode, same] using inv.owned other slot here
  · intro other
    by_cases same : other = page
    · subst same
      simpa [PageCache.refile, linkInode, setPage] using notFree
    · simpa [PageCache.refile, linkInode, setPage, setInode, same] using inv.cached other

def dropInode (cache : Cache) (inode page : Nat) : Cache :=
  { cache with
    inode := fun other =>
      { cache.inode other with
        nrpages := if other = inode then (cache.inode other).nrpages - 1 else (cache.inode other).nrpages
        pageList := fun index => ((cache.inode other).pageList index).erase page }
    page := update cache.page page { cache.page page with listLinked := false, fsInode := none } }

theorem dropInode_lists (inv : ListsInv cache) (inode page : Nat) : ListsInv (dropInode cache inode page) :=
  inv.congr rfl (same Page.lruLinked (by rfl)) (same Page.listType (by rfl))

theorem dropInode_eq (linked : (cache.page page).listLinked = true) (inode : Nat) :
    (let unlinked := listDel cache page
     let owner := unlinked.inode inode
     let counted := setInode unlinked inode { owner with nrpages := owner.nrpages - 1 }
     setPage counted page { counted.page page with fsInode := none }) = dropInode cache inode page := by
  have inodes : update
      (fun other => { cache.inode other with pageList := fun index => ((cache.inode other).pageList index).erase page })
      inode { cache.inode inode with
        nrpages := (cache.inode inode).nrpages - 1
        pageList := fun index => ((cache.inode inode).pageList index).erase page } =
      (dropInode cache inode page).inode := by
    funext other
    by_cases same : other = inode
    · subst same
      simp [dropInode]
    · simp [dropInode, same]
  simp only [listDel, linked, if_true, setInode, setPage, update_self, update_idem, inodes]
  simp [dropInode]

theorem dropInode_refile (cache : Cache) (inode page : Nat) (target : Option ListType) :
    dropInode (PageCache.refile cache page target) inode page =
      PageCache.refile (dropInode cache inode page) page target := by
  simp [dropInode, PageCache.refile]

theorem pcDeletePage_eq (inv : CacheInv cache place) {slot : Nat × Nat} (here : place page = some slot) :
    pcDeletePage cache page = some (
      if (cache.page page).count ≠ 0 ∨ (cache.inode slot.1).executing = true then (false, cache)
      else (true, PageCache.refile (dropInode cache slot.1 page) page (some .free))) := by
  rw [pcDeletePage]
  simp only [inv.owned page slot here]
  by_cases busy : (cache.page page).count ≠ 0 ∨ (cache.inode slot.1).executing = true
  · simp [if_pos busy]
  obtain ⟨kind, -, listed⟩ := (inv.cached page).1 (by simp [here])
  have lruBit : (cache.page page).lruLinked = true := by simp [inv.lists.linked, listed]
  have listBit : ((PageCache.refile cache page none).page page).listLinked = true := by
    simp [PageCache.refile, inv.linked, here]
  have dropped := dropInode_eq listBit slot.1
  have lists := refile_inv (dropInode_lists inv.lists slot.1 page) page none
  have unlisted : ((PageCache.refile (dropInode cache slot.1 page) page none).page page).listType = none := by
    simp [PageCache.refile]
  simp only [if_neg busy, lruBit, if_true, pagelistMove_eq inv.lists, listBit, Bool.true_eq_false, if_false]
  rw [dropped, dropInode_refile, pcPutFreePage, pagelistAdd_eq lists unlisted,
    refile_refile (dropInode_lists inv.lists slot.1 page)]

theorem CacheInv.delete (inv : CacheInv cache place) (inode page : Nat) :
    CacheInv (PageCache.refile (dropInode cache inode page) page (some .free)) (update place page none) := by
  refine ⟨refile_inv (dropInode_lists inv.lists inode page) page _, inv.buckets.take page, ?_, ?_, ?_⟩
  · intro other
    by_cases same : other = page
    · subst same
      simp [PageCache.refile, dropInode]
    · simpa [PageCache.refile, dropInode, same] using inv.linked other
  · intro other slot here
    by_cases same : other = page
    · subst same
      simp at here
    · rw [update_of_ne same] at here
      simpa [PageCache.refile, dropInode, same] using inv.owned other slot here
  · intro other
    by_cases same : other = page
    · subst same
      simp [PageCache.refile, dropInode]
    · simpa [PageCache.refile, dropInode, same] using inv.cached other

end JinyKernel.PageCache
