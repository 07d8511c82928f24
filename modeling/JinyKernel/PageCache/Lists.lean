import JinyKernel.PageCache.Model
import JinyKernel.Shared.Filing

namespace JinyKernel.PageCache

open Filing Function List

structure ListsInv (cache : Cache) : Prop where
  filed : Filed (fun kind => (cache.list kind).queue) (fun page => (cache.page page).listType)
  counts : ∀ kind, (cache.list kind).count = (cache.list kind).queue.length
  linked : ∀ page, (cache.page page).lruLinked = (cache.page page).listType.isSome

def refileQueue (queue : List Nat) (page : Nat) (here : Bool) : List Nat :=
  if here then queue.erase page ++ [page] else queue.erase page

-- Take the page off its list and file it under `target`.
def refile (cache : Cache) (page : Nat) (target : Option ListType) : Cache :=
  { cache with
    list := fun kind =>
      let queue := refileQueue (cache.list kind).queue page (decide (target = some kind))
      { queue := queue, count := queue.length }
    page := update cache.page page
      { cache.page page with lruLinked := target.isSome, listType := target } }

variable {cache : Cache} {page : Nat}

variable (inv : ListsInv cache)

include inv

theorem refile_inv (page : Nat) (target : Option ListType) : ListsInv (refile cache page target) := by
  have taken := inv.filed.take page
  have places : (fun other => ((refile cache page target).page other).listType) =
      update (fun other => (cache.page other).listType) page target := by
    funext other
    exact apply_update (fun _ => Page.listType) ..
  refine ⟨?_, fun _ => rfl, ?_⟩
  · rw [places]
    cases target with
    | none => simpa [refile, refileQueue] using taken
    | some kind =>
      have filed := taken.put kind page (by simp)
        (perm_append_singleton page ((cache.list kind).queue.erase page))
      rw [update_idem] at filed
      refine (congrArg (Filed · _) ?_).mp filed
      funext other
      by_cases same : other = kind
      · subst same
        simp [refile, refileQueue]
      · simp [refile, refileQueue, same, Ne.symm same]
  · intro other
    by_cases same : other = page
    · subst same
      simp [refile]
    · simpa [refile, same] using inv.linked other

theorem pagelistAdd_eq (unlisted : (cache.page page).listType = none) (kind : ListType) :
    pagelistAdd cache page kind = refile cache page (some kind) := by
  have absent (other : ListType) : page ∉ (cache.list other).queue := inv.filed.absent unlisted other
  have lists : update cache.list kind
      { queue := (cache.list kind).queue ++ [page], count := (cache.list kind).count + 1 } =
        (refile cache page (some kind)).list := by
    funext other
    by_cases same : other = kind
    · subst same
      simp [refile, refileQueue, erase_of_not_mem (absent other), inv.counts]
    · simp [refile, refileQueue, same, Ne.symm same, erase_of_not_mem (absent other), ← inv.counts]
  simp only [pagelistAdd, setPage, setList, lists]
  rfl

theorem lruDel_listed {kind : ListType} (listed : (cache.page page).listType = some kind) : lruDel cache page =
      setPage { cache with list := fun kind => { cache.list kind with queue := (cache.list kind).queue.erase page } }
        page { cache.page page with lruLinked := false } := by
  rw [lruDel, if_pos]
  rw [inv.linked, listed]
  rfl

theorem unlink_eq {kind : ListType} (listed : (cache.page page).listType = some kind) :
    (let unlinked := lruDel cache page
     let list := unlinked.list kind
     setPage (setList unlinked kind { list with count := list.count - 1 }) page
        { unlinked.page page with listType := none }) = refile cache page none := by
  have member : page ∈ (cache.list kind).queue := (inv.filed.agrees page kind).2 listed
  have elsewhere (other : ListType) (different : other ≠ kind) : page ∉ (cache.list other).queue := by
    rw [inv.filed.agrees, listed]
    simpa using Ne.symm different
  have lists : update
      (fun other => { cache.list other with queue := (cache.list other).queue.erase page }) kind
        { queue := (cache.list kind).queue.erase page, count := (cache.list kind).count - 1 } =
      (refile cache page none).list := by
    funext other
    by_cases same : other = kind
    · subst same
      have shorter := length_erase_add_one member
      simp [refile, refileQueue, inv.counts]
      omega
    · simp [refile, refileQueue, same, erase_of_not_mem (elsewhere other same), ← inv.counts]
  simp only [lruDel_listed inv listed, setPage, setList, update_self, update_idem, lists]
  rfl

theorem refile_refile (page : Nat) (target : Option ListType) :
    refile (refile cache page none) page target = refile cache page target := by
  have once (kind : ListType) : ((cache.list kind).queue.erase page).erase page = (cache.list kind).queue.erase page :=
    erase_of_not_mem (inv.filed.nodup kind).not_mem_erase
  simp [refile, refileQueue, once]

theorem refile_unlisted (unlisted : (cache.page page).listType = none) : refile cache page none = cache := by
  have lists : (refile cache page none).list = cache.list := by
    funext kind
    simp [refile, refileQueue, erase_of_not_mem (inv.filed.absent unlisted kind), ← inv.counts]
  have pages : (refile cache page none).page = cache.page := by
    have bit := inv.linked page
    rw [refile, update_eq_self_iff]
    cases entry : cache.page page
    simp only [entry] at unlisted bit
    simp [unlisted, bit]
  cases cache
  simp_all [refile]

theorem pagelistMove_eq (page : Nat) (target : Option ListType) :
    pagelistMove cache page target = refile cache page target := by
  cases listed : (cache.page page).listType with
  | none =>
    simp only [pagelistMove, listed]
    cases target with
    | none => exact (refile_unlisted inv listed).symm
    | some kind => exact pagelistAdd_eq inv listed kind
  | some from_ =>
    simp only [pagelistMove, listed, unlink_eq inv listed]
    cases target with
    | none => rfl
    | some kind =>
      have unlisted : ((refile cache page none).page page).listType = none := by simp [refile]
      simp [pagelistAdd_eq (refile_inv inv page none) unlisted kind, refile_refile inv]

theorem pagelistRemove_eq (kind : ListType) :
    pagelistRemove cache kind = (cache.list kind).queue.head?.map fun page => (page, refile cache page none) := by
  cases first : (cache.list kind).queue with
  | nil => simp [pagelistRemove, first]
  | cons page rest =>
    have listed : (cache.page page).listType = some kind := (inv.filed.agrees page kind).1 (by simp [first])
    have unlinked := unlink_eq inv listed
    simp only [pagelistRemove, first, head?_cons, Option.map_some]
    rw [← unlinked]

end JinyKernel.PageCache
