import JinyKernel.FileIo.Upkeep

namespace JinyKernel.FileIo

open PageCache

def loaded (ready : Files) (inode page offset : Nat) : Files :=
  (fresh ready page offset false).storeBytes page 0 (ready.vfsRead inode (pageMask offset) pageSize)

def arrived (ready : Files) (cache : Cache) (inode page offset : Nat) : Files :=
  let bytes := ready.vfsRead inode (pageMask offset) pageSize
  let files := (ready.withCache cache).storeBytes page bytes.length (List.replicate (pageSize - bytes.length) 0)
  if wrap (bytes.length + pageMask offset) > files.stSize inode then files.setSize inode (wrap (offset + bytes.length))
  else files

def Vacant (cache : Cache) (members : Members) (inode offset : Nat) : Prop :=
  ∀ page ∈ members inode, cache.offset page ≠ pageMask offset

variable {usable : Nat -> Prop} {total : Int} {held : List (Nat × Nat)} {targets : Targets} {limit : Nat}
  {files ready : Files} {members fewer : Members} {inode offset page : Nat} {rest : List Nat}

theorem Sane.loaded (sane : Sane usable total ready.cache held members)
    (first : (ready.cache.list .free).queue = page :: rest) :
    Sane usable total (loaded ready inode page offset).cache ((0, page) :: held) members :=
      (sane.fresh first false).data _

theorem fresh_offset (ready : Files) (page offset : Nat) (clearPage : Bool) (other : Nat) :
    (fresh ready page offset clearPage).cache.offset other =
      if other = page then pageMask offset else ready.cache.offset other := by
  rw [Cache.offset, fresh_page, Function.update_apply]
  split <;> rfl

theorem pageSize_dvd_pageMask (offset : Nat) : pageSize ∣ pageMask offset := Nat.dvd_mul_left ..

theorem Sane.arrived {cache : Cache} (sane : Sane usable total cache held members) (ready : Files)
    (inode page offset : Nat) :
    Sane usable total (arrived ready cache inode page offset).cache held members := by
  rw [FileIo.arrived]
  split
  next => exact (sane.data _).size inode _
  next => exact sane.data _

theorem arrived_offset (ready : Files) (cache : Cache) (inode page offset other : Nat) :
    (arrived ready cache inode page offset).cache.offset other = cache.offset other := by
  rw [arrived]
  split <;> rfl

theorem fsGenericRead_hit (sane : Sane usable total files.cache held members) (member : page ∈ members inode)
    (same : files.cache.offset page = pageMask offset) (rounds : Nat) :
    fsGenericRead targets limit (rounds + 1) files inode offset =
      some (some page, files.withCache (addCount files.cache page 1)) := by
  rcases sane.getInodePage inode offset with ⟨-, vacant⟩ | ⟨other, there, also, got⟩
  · exact absurd same (vacant page member)
  have twin := sane.placed.offset_inj there member (also.trans same.symm)
  subst twin
  rw [fsGenericRead, got]
  rfl

theorem fsGenericRead_eq (miss : pcGetInodePage files.cache inode offset = some (none, files.cache))
    (got : getFreePage targets limit files false =
      some (page, ready.withCache (pageInit (refile ready.cache page none) page false))) (rounds : Nat) :
    fsGenericRead targets limit (rounds + 1) files inode offset =
      if (ready.vfsRead inode (pageMask offset) pageSize).length > 0 then
        (pcInsertPage (loaded ready inode page offset).cache inode page).bind fun outcome =>
          if outcome.1 then fsGenericRead targets limit rounds (arrived ready outcome.2 inode page offset) inode offset
          else (pcGetInodePage (pcPutFreePage outcome.2 page) inode offset).bind fun again =>
            some (again.1, (loaded ready inode page offset).withCache again.2)
      else some (none, (loaded ready inode page offset).withCache (pcPutFreePage
        (loaded ready inode page offset).cache page)) := by
  rw [fsGenericRead, miss]
  simp only [Run.some_bind, got]
  rfl

variable (sane : Sane usable total files.cache held members)

include sane

theorem Sane.miss (vacant : Vacant files.cache members inode offset) :
    pcGetInodePage files.cache inode offset = some (none, files.cache) := by
  rcases sane.getInodePage inode offset with ⟨got, -⟩ | ⟨other, there, also, -⟩
  · exact got
  · exact absurd also (vacant other there)

theorem fsGenericRead_miss (vacant : Vacant files.cache members inode offset)
    (stock : stocked targets limit files = some ready)
    (kept : Upkept usable total held files.cache members ready.cache fewer)
    (first : (ready.cache.list .free).queue = page :: rest) (rounds : Nat) :
    ((ready.vfsRead inode (pageMask offset) pageSize = [] ∨ ready.stSize inode < pageMask offset) ∧
      fsGenericRead targets limit (rounds + 1) files inode offset = some (none,
        (loaded ready inode page offset).withCache (pcPutFreePage (loaded ready inode page offset).cache page))) ∨
    ∃ cache, ready.vfsRead inode (pageMask offset) pageSize ≠ [] ∧ pageMask offset ≤ ready.stSize inode ∧
      InsertedAs (loaded ready inode page offset).cache cache inode page ∧
      Sane usable total cache held (Function.update fewer inode (insert page (fewer inode))) ∧
      fsGenericRead targets limit (rounds + 1) files inode offset =
        fsGenericRead targets limit rounds (arrived ready cache inode page offset) inode offset := by
  obtain ⟨sane', sizes, subset, offsets⟩ := kept
  have loadedSane : Sane usable total (loaded ready inode page offset).cache ((0, page) :: held) fewer :=
    sane'.loaded first
  have place (other : Nat) : (loaded ready inode page offset).cache.offset other =
      if other = page then pageMask offset else ready.cache.offset other := fresh_offset ready page offset false other
  have own : (loaded ready inode page offset).cache.offset page = pageMask offset := by rw [place, if_pos rfl]
  have free : Vacant (loaded ready inode page offset).cache fewer inode offset := by
    intro other member
    have apart : other ≠ page := by
      rintro rfl
      exact sane'.free_outside first inode member
    rw [place, if_neg apart]
    exact (offsets other).trans_ne (vacant other (subset inode member))
  rw [fsGenericRead_eq (sane.miss vacant) (getFreePage_eq sane' stock first false)]
  have size : ((loaded ready inode page offset).cache.inode inode).stSize = ready.stSize inode := rfl
  by_cases stored : ready.vfsRead inode (pageMask offset) pageSize = []
  · left
    exact ⟨.inl stored, by rw [stored, if_neg (by simp)]⟩
  rw [if_pos (List.length_pos_iff.2 stored)]
  by_cases behind : ready.stSize inode < pageMask offset
  · left
    refine ⟨.inr behind, ?_⟩
    have refused : pcInsertPage (loaded ready inode page offset).cache inode page =
        some (false, (loaded ready inode page offset).cache) := Sane.refused (by rw [size, own]; exact behind)
    have given : Sane usable total (pcPutFreePage (loaded ready inode page offset).cache page) held fewer :=
      loadedSane.giveBack
    have still : pcGetInodePage (pcPutFreePage (loaded ready inode page offset).cache page) inode offset =
        some (none, pcPutFreePage (loaded ready inode page offset).cache page) := by
      rcases given.getInodePage inode offset with ⟨got, -⟩ | ⟨other, there, also, -⟩
      · exact got
      · refine absurd ?_ (free other there)
        rw [← also]
        exact (pagelistAdd_offset ..).symm
    rw [refused]
    simp [still]
  · right
    obtain ⟨cache, ran, inserted, kept⟩ := loadedSane.insert (by rw [own]; exact pageSize_dvd_pageMask offset)
      (fun other member => own.symm ▸ free other member) (by rw [own, size]; exact Nat.not_lt.1 behind)
    refine ⟨cache, stored, Nat.not_lt.1 behind, inserted, kept, ?_⟩
    rw [ran]
    rfl

end JinyKernel.FileIo
