import JinyKernel.FileIo.Model
import JinyKernel.PageCache.Lookup

namespace JinyKernel.FileIo

open PageCache Updates

structure Sane (usable : Nat -> Prop) (total : Int) (cache : Cache) (held : List (Nat × Nat)) (members : Members) :
    Prop where
  filed : ∃ place, StateInv usable total ⟨cache, held⟩ place
  placed : Placed cache members

variable {usable : Nat -> Prop} {total : Int} {cache after : Cache} {held : List (Nat × Nat)} {members : Members}
  {page inode : Nat}

section

variable (sane : Sane usable total cache held members)

include sane

theorem Sane.inserted_iff : Inserted cache page ↔ ∃ inode, page ∈ members inode := by
  constructor
  · rintro ⟨inode, index, member⟩
    exact ⟨inode, (sane.placed.listed inode page).2 ⟨index, member⟩⟩
  · rintro ⟨inode, member⟩
    obtain ⟨index, there⟩ := (sane.placed.listed inode page).1 member
    exact ⟨inode, index, there⟩

theorem Sane.bucket (member : page ∈ members inode) :
    ∃ place index, StateInv usable total ⟨cache, held⟩ place ∧ place page = some (inode, index) := by
  obtain ⟨place, inv⟩ := sane.filed
  obtain ⟨index, there⟩ := (sane.placed.listed inode page).1 member
  exact ⟨place, index, inv, (inv.cache.buckets.agrees page (inode, index)).1 there⟩

theorem Sane.owner (member : page ∈ members inode) :
    (cache.page page).fsInode = some inode := by
  obtain ⟨place, index, inv, here⟩ := sane.bucket member
  exact inv.cache.owned page (inode, index) here

theorem Sane.listed (member : page ∈ members inode) :
    ∃ kind, kind ≠ ListType.free ∧ (cache.page page).listType = some kind := by
  obtain ⟨place, inv⟩ := sane.filed
  exact (inv.cache.cached page).1 ((inv.cache.inserted_iff page).1 (sane.inserted_iff.2 ⟨inode, member⟩))

theorem Sane.lists : ListsInv cache := by
  obtain ⟨place, inv⟩ := sane.filed
  exact inv.cache.lists

theorem Sane.step {next : State} {event : Event}
    (allowed : TrackAllowed (⟨cache, held⟩, members) event) (moved : PageCache.step ⟨cache, held⟩ event = some next) :
    Sane usable total next.cache next.held (record ⟨cache, held⟩ members event) := by
  obtain ⟨place, inv⟩ := sane.filed
  obtain ⟨next', ran, filed⟩ := step_inv inv event allowed.1
  cases moved.symm.trans ran
  exact ⟨filed, sane.placed.step inv allowed moved⟩

theorem Sane.touch (outside : OutsideCalls cache after)
    (offset : ∀ page, Inserted cache page -> (after.page page).offset = (cache.page page).offset)
    (nrpages : ∀ inode, (after.inode inode).nrpages = (cache.inode inode).nrpages) :
    Sane usable total after held members := by
  have allowed : TrackAllowed (⟨cache, held⟩, members) (.environment after) := ⟨outside, offset, nrpages⟩
  exact sane.step allowed rfl

theorem Sane.touchPage {value : Page}
    (lruLinked : value.lruLinked = (cache.page page).lruLinked) (listType : value.listType = (cache.page page).listType)
    (listLinked : value.listLinked = (cache.page page).listLinked) (fsInode : value.fsInode = (cache.page page).fsInode)
    (offset : Inserted cache page -> value.offset = (cache.page page).offset) :
    Sane usable total (setPage cache page value) held members := by
  refine sane.touch ⟨setPage_sameLinks _ _ _ lruLinked listType listLinked fun _ => fsInode, rfl⟩
    (fun other inserted => ?_) fun _ => rfl
  by_cases same : other = page
  · subst same
    simpa [setPage] using offset inserted
  · simp [setPage, same]

end

def addCount (cache : Cache) (page : Nat) (change : Int) : Cache :=
  setPage cache page { cache.page page with count := (cache.page page).count + change }

theorem pcGetPage_eq (owner : (cache.page page).fsInode = some inode) :
    pcGetPage cache page = some (addCount cache page 1) := by
  simp only [pcGetPage, addCount, owner]

theorem pcPutPage_eq (owner : (cache.page page).fsInode = some inode) :
    pcPutPage cache page = some (addCount cache page (-1)) := by
  simp only [pcPutPage, addCount, owner]
  rfl

theorem requeue (lists : ListsInv cache) {from_ : ListType} (target : ListType) {rest : List Nat}
    (first : (cache.list from_).queue = page :: rest) :
    pagelistRemove cache from_ = some (page, refile cache page none) ∧
      pagelistAdd (refile cache page none) page target = refile cache page (some target) := by
  refine ⟨by rw [pagelistRemove_eq lists, first]; rfl, ?_⟩
  have unlisted : ((refile cache page none).page page).listType = none := by simp [refile]
  rw [pagelistAdd_eq (refile_inv lists page none) unlisted, refile_refile lists]

section

variable (sane : Sane usable total cache held members)

include sane

theorem Sane.addCount (page : Nat) (change : Int) :
    Sane usable total (addCount cache page change) held members := sane.touchPage rfl rfl rfl rfl fun _ => rfl

theorem Sane.getInodePage (inode offset : Nat) :
    (pcGetInodePage cache inode offset = some (none, cache) ∧ ∀ page ∈ members inode,
      cache.offset page ≠ pageMask offset) ∨
    ∃ page ∈ members inode, cache.offset page = pageMask offset ∧
      pcGetInodePage cache inode offset = some (some page, FileIo.addCount cache page 1) := by
  cases found : bucketSearch cache.page (offset / pageSize * pageSize)
      ((cache.inode inode).pageList (getPagelistIndex offset)) with
  | none =>
    left
    refine ⟨by rw [pcGetInodePage, found], fun page member same => ?_⟩
    have hit := sane.placed.search_iff.2 ⟨member, same⟩
    rw [found] at hit
    cases hit
  | some page =>
    right
    obtain ⟨member, same⟩ := sane.placed.search_iff.1 found
    refine ⟨page, member, same, ?_⟩
    rw [pcGetInodePage, found]
    exact congrArg (Option.map fun cache => (some page, cache)) (pcGetPage_eq (sane.owner member))

theorem Sane.refile (member : page ∈ members inode) {kind : ListType}
    (notFree : kind ≠ .free) : Sane usable total (refile cache page (some kind)) held members := by
  obtain ⟨place, inv⟩ := sane.filed
  have here := (inv.cache.inserted_iff page).1 (sane.inserted_iff.2 ⟨inode, member⟩)
  obtain ⟨before, -, listed⟩ := sane.listed member
  have moved := inv.cache.refile page (some kind) (by simpa [here] using notFree)
  refine ⟨⟨place, inv.stay moved (fun other => ?_) rfl⟩,
    sane.placed.congr (fun _ => rfl) (fun _ => rfl) fun other _ => refile_offset ..⟩
  by_cases same : other = page
  · subst same
    simp [PageCache.refile, listed]
  · simp [PageCache.refile, same]

theorem Sane.first_member {kind : ListType} (notFree : kind ≠ .free)
    {rest : List Nat} (first : (cache.list kind).queue = page :: rest) : ∃ inode, page ∈ members inode := by
  obtain ⟨place, inv⟩ := sane.filed
  have listed : (cache.page page).listType = some kind :=
    (inv.cache.lists.filed.agrees page kind).1 (by rw [first]; exact List.mem_cons_self)
  exact sane.inserted_iff.1 ((inv.cache.inserted_iff page).2 ((inv.cache.cached page).2 ⟨kind, notFree, listed⟩))

end

theorem cleaned_put {place : Nat -> Option (Nat × Nat)} {slot : Nat × Nat} (inv : CacheInv cache place)
    (here : place page = some slot) :
    let cleaned := refileDirty (addCount cache page 1) page (cleanTarget cache slot.1) false
    pcPagecleaned (addCount cache page 1) page = some cleaned ∧
      pcPutPage cleaned page = some (refileDirty cache page (cleanTarget cache slot.1) false) := by
  have owner := inv.owned page slot here
  have counted : CacheInv (addCount cache page 1) place :=
    inv.retouch (setPage_sameLinks _ _ _ rfl rfl rfl fun _ => rfl)
  have still : ((refileDirty (addCount cache page 1) page (cleanTarget cache slot.1) false).page page).fsInode =
      some slot.1 := by
    simpa [refileDirty, PageCache.refile, addCount, setPage] using owner
  refine ⟨pcPagecleaned_eq counted here, (pcPutPage_eq still).trans ?_⟩
  simp [refileDirty, PageCache.refile, addCount, setPage]

end JinyKernel.FileIo
