import JinyKernel.FileIo.Fetch

namespace JinyKernel.FileIo

open List PageCache Run

def Files.hits (files : Files) (inode offset : Nat) : Bool :=
  (bucketSearch files.cache.page (offset / pageSize * pageSize)
    ((files.cache.inode inode).pageList (getPagelistIndex offset))).isSome

-- The files when the page was found or a free page is there for it; else the kernel stops.
def servedFrom (targets : Targets) (rounds : Nat) (files : Files) (inode offset : Nat) : Option Files :=
  if files.hits inode offset then some files
  else (stocked targets rounds files).bind fun ready =>
    if (ready.cache.list .free).queue = [] then none else some ready

namespace Files

variable (files : Files) (inode offset : Nat)

def trueSize : Nat := (files.backing inode).length

def tret : Nat := min pageSize (files.trueSize inode - pageMask offset)

def fills : Prop :=
  files.hits inode offset = false ∧ pageMask offset < files.trueSize inode ∧ pageMask offset ≤ files.stSize inode

instance : Decidable (files.fills inode offset) := inferInstanceAs (Decidable (_ ∧ _ ∧ _))

-- The number of bytes is added to the offset asked for, not to that of the page.
def sizeAfter : Nat :=
  if files.fills inode offset ∧ wrap (files.tret inode offset + pageMask offset) > files.stSize inode then
    wrap (offset + files.tret inode offset)
  else files.stSize inode

def KeepsSize : Prop :=
  files.fills inode offset -> wrap (files.tret inode offset + pageMask offset) ≤ files.stSize inode ∨
    offset + files.tret inode offset ≤ files.trueSize inode ∨ 2 ^ 64 ≤ offset + files.tret inode offset

instance : Decidable (files.KeepsSize inode offset) := inferInstanceAs (Decidable (_ -> _))

end Files

def available (stSize offset : Nat) (len : Int) : Int :=
  if offset < stSize then min len (min ((pageSize - offset % pageSize : Nat) : Int)
    ((stSize - offset : Nat) : Int)) else 0

-- The offsets do not wrap, and the offset is not behind the end (or the difference is lost in the `int`).
def EndsWell (stSize offset : Nat) (len : Int) : Prop :=
  offset + min len ((pageSize - offset % pageSize : Nat) : Int) < 2 ^ 64 ∧
    (offset ≤ stSize ∨ toInt (wrapSub stSize offset) = 0 ∨ len = 0 ∧ 0 ≤ toInt (wrapSub stSize offset))

instance (stSize offset : Nat) (len : Int) : Decidable (EndsWell stSize offset len) := inferInstanceAs (Decidable (_ ∧ _))

def Files.ReturnsWell (files : Files) (inode offset : Nat) (len : Int) : Prop :=
  if files.hits inode offset ∨ files.fills inode offset then EndsWell (files.sizeAfter inode offset) offset len
  else files.sizeAfter inode offset ≤ offset ∨ len = 0

instance (files : Files) (inode offset : Nat) (len : Int) : Decidable (files.ReturnsWell inode offset len) :=
  inferInstanceAs (Decidable (if files.hits inode offset ∨ files.fills inode offset then _ else (_ ∨ _)))

theorem pageMask_add_mod (offset : Nat) : pageMask offset + offset % pageSize = offset := by
  rw [pageMask, Nat.mul_comm]
  exact Nat.div_add_mod offset pageSize

theorem readLength_iff {stSize offset : Nat} {len : Int} (small : offset < 2 ^ 64) (size : stSize < 2 ^ 64)
    (positive : 0 ≤ len) :
    readLength stSize offset len = available stSize offset len ↔ EndsWell stSize offset len := by
  have split := pageMask_add_mod offset
  have below : offset % pageSize < pageSize := Nat.mod_lt _ (by decide)
  have page : pageSize = 4096 := rfl
  have ceiling : offset + (pageSize - offset % pageSize) ≤ 2 ^ 64 := by
    rw [page] at split below ⊢
    simp only [pageMask, page] at split
    omega
  rw [readLength, available, EndsWell]
  have inPage : offset - pageMask offset = offset % pageSize := by omega
  rw [inPage]
  have room : (pageSize : Int) - (offset % pageSize : Nat) = ((pageSize - offset % pageSize : Nat) : Int) := by omega
  rw [room]
  have positiveRoom : 1 ≤ pageSize - offset % pageSize ∧ pageSize - offset % pageSize ≤ 4096 := by omega
  clear split below page inPage room
  generalize pageSize - offset % pageSize = left at ceiling positiveRoom ⊢
  have cut : (if (left : Int) > len then len else (left : Int)) = min len left := by
    split <;> omega
  simp only [cut]
  generalize wanted : min len (left : Int) = ret
  by_cases ends : (offset : Int) + ret < 2 ^ 64
  · have sum : (toUlong (offset + ret) : Int) = offset + ret := by
      rw [toUlong_eq (by omega) ends]
      omega
    generalize toUlong (offset + ret) = last at sum ⊢
    by_cases inside : offset ≤ stSize
    · -- the difference to the end of the file is used only if it is less than a page
      have difference : wrapSub stSize offset = stSize - offset := wrapSub_eq inside size
      refine iff_of_true ?_ ⟨ends, .inl inside⟩
      rw [difference]
      split
      next reaches =>
        have less : ((stSize - offset : Nat) : Int) < ret := by omega
        rw [toInt_nat (by omega), if_pos less]
        split <;> omega
      next => split <;> omega
    · have reaches : last > stSize := by omega
      rw [if_pos reaches, if_neg (show ¬ offset < stSize by omega)]
      generalize toInt (wrapSub stSize offset) = shortfall
      split <;> omega
  · have whole : (offset : Int) + ret = 2 ^ 64 := by omega
    have zero : toUlong (offset + ret) = 0 := by
      rw [whole]
      rfl
    refine iff_of_false ?_ fun both => ends both.1
    rw [zero, if_neg (by omega)]
    split <;> omega

section

variable {usable : Nat -> Prop} {total : Int} {held : List (Nat × Nat)} {targets : Targets} {rounds : Nat}
  {files ready : Files} {members fewer : Members} {inode offset : Nat}

theorem Sane.hits_iff (sane : Sane usable total files.cache held members) :
    files.hits inode offset = true ↔ ∃ page ∈ members inode, files.cache.offset page = pageMask offset := by
  rw [Files.hits, Option.isSome_iff_exists]
  exact exists_congr fun page => sane.placed.search_iff

theorem Sane.vacant (sane : Sane usable total files.cache held members) (miss : files.hits inode offset = false) :
    Vacant files.cache members inode offset := by
  intro page member same
  rw [sane.hits_iff.2 ⟨page, member, same⟩] at miss
  cases miss

theorem length_vfsRead (files : Files) (inode offset : Nat) :
    (files.vfsRead inode (pageMask offset) pageSize).length = files.tret inode offset := by
  rw [Files.vfsRead, length_take, length_drop]
  rfl

theorem vfsRead_eq_nil (files : Files) (inode offset : Nat) :
    files.vfsRead inode (pageMask offset) pageSize = [] ↔ files.trueSize inode ≤ pageMask offset := by
  rw [← length_eq_zero_iff, length_vfsRead, Files.tret, Nat.min_eq_zero_iff, Nat.sub_eq_zero_iff_le]
  simp [pageSize]

theorem arrived_size {cache : Cache} {page : Nat} (fill : ready.fills inode offset)
    (size : (cache.inode inode).stSize = ready.stSize inode) :
    (arrived ready cache inode page offset).stSize inode = ready.sizeAfter inode offset := by
  rw [arrived, length_vfsRead, Files.sizeAfter]
  simp only [fill, true_and]
  have before (pos : Nat) (bytes : List UInt8) :
      ((ready.withCache cache).storeBytes page pos bytes).stSize inode = ready.stSize inode := size
  rw [before]
  split
  next => simp [Files.stSize, Files.setSize, Files.withCache, setInode]
  next => rw [before]

theorem Sane.miss_kept (sane : Sane usable total files.cache held members) (miss : files.hits inode offset = false)
    (kept : Upkept usable total held files.cache members ready.cache fewer) : ready.hits inode offset = false := by
  obtain ⟨sane', -, subset, offsets⟩ := kept
  rw [← Bool.not_eq_true, sane'.hits_iff]
  rintro ⟨page, member, same⟩
  exact sane.vacant miss page (subset inode member) ((offsets page).symm.trans same)

theorem fsGenericRead_size (sane : Sane usable total files.cache held members)
    (served : servedFrom targets rounds files inode offset = some ready) (two : 2 ≤ rounds) :
    ∃ found after members', fsGenericRead targets rounds rounds files inode offset = some (found, after) ∧
      Sane usable total after.cache held members' ∧ (∀ page, found = some page -> page ∈ members' inode) ∧
      (found.isSome = true ↔ ready.hits inode offset = true ∨ ready.fills inode offset) ∧
      ready.stSize inode = files.stSize inode ∧ after.stSize inode = ready.sizeAfter inode offset ∧
      after.backing = ready.backing := by
  obtain ⟨more, rfl⟩ := Nat.exists_eq_add_of_le two
  rw [Nat.add_comm 2 more] at served ⊢
  rw [servedFrom] at served
  cases hit : files.hits inode offset with
  | true =>
    rw [if_pos hit] at served
    cases served
    obtain ⟨page, member, same⟩ := sane.hits_iff.1 hit
    have noFill : ¬ files.fills inode offset := fun fills => by
      have miss := fills.1
      rw [hit] at miss
      cases miss
    refine ⟨_, _, members, fsGenericRead_hit sane member same _, sane.addCount page 1, ?_, ?_, rfl, ?_, rfl⟩
    · rintro other ⟨⟩
      exact member
    · exact iff_of_true rfl (.inl hit)
    · rw [Files.sizeAfter, if_neg fun both => noFill both.1]
      rfl
  | false =>
    rw [if_neg (by simp [hit])] at served
    obtain ⟨stock, filled, served⟩ := bind_iff.1 served
    obtain ⟨page, rest, first⟩ : ∃ page rest, (stock.cache.list .free).queue = page :: rest := by
      cases queue : (stock.cache.list .free).queue with
      | nil =>
        rw [if_pos queue] at served
        cases served
      | cons page rest => exact ⟨page, rest, rfl⟩
    rw [if_neg (by simp [first])] at served
    cases served
    obtain ⟨fewer, upkept⟩ := stocked_upkept sane filled
    have miss := sane.miss_kept hit upkept
    have sizes : ready.stSize inode = files.stSize inode := upkept.size inode
    rcases fsGenericRead_miss sane (sane.vacant hit) filled upkept first (more + 1) with
      ⟨nothing, result⟩ | ⟨cache, stored, within, inserted, kept, result⟩
    · have noFill : ¬ ready.fills inode offset := by
        rintro ⟨-, stored, within⟩
        rw [vfsRead_eq_nil] at nothing
        omega
      refine ⟨_, _, fewer, result, (upkept.sane.loaded first).giveBack, ?_, ?_, sizes, ?_, rfl⟩
      · rintro other ⟨⟩
      · exact iff_of_false (by simp) fun either => either.elim (by simp [miss]) noFill
      · rw [Files.sizeAfter, if_neg fun both => noFill both.1]
        rfl
    have fill : ready.fills inode offset := by
      rw [Ne, vfsRead_eq_nil, Nat.not_le] at stored
      exact ⟨miss, stored, within⟩
    have arrivedSane := kept.arrived ready inode page offset
    have member : page ∈ Function.update fewer inode (insert page (fewer inode)) inode := by simp
    have same : (arrived ready cache inode page offset).cache.offset page = pageMask offset := by
      rw [arrived_offset, inserted.offset]
      exact (fresh_offset ..).trans (if_pos rfl)
    rw [fsGenericRead_hit arrivedSane member same] at result
    refine ⟨_, _, _, result, arrivedSane.addCount page 1, ?_, ?_, sizes, ?_, ?_⟩
    · rintro other ⟨⟩
      exact member
    · exact iff_of_true rfl (.inr fill)
    · exact arrived_size fill (inserted.size inode)
    · rw [Files.withCache, arrived]
      split <;> rfl

theorem fsGenericRead_unserved (sane : Sane usable total files.cache held members)
    (unserved : servedFrom targets rounds files inode offset = none) :
    fsGenericRead targets rounds rounds files inode offset = none := by
  rw [servedFrom] at unserved
  cases hit : files.hits inode offset with
  | true =>
    rw [if_pos hit] at unserved
    cases unserved
  | false =>
    rw [if_neg (by simp [hit])] at unserved
    have got : getFreePage targets rounds files false = none := by
      rw [getFreePage]
      rw [stocked] at unserved
      split_ifs at unserved ⊢ with queue
      · refine Option.bind_eq_none_iff.2 fun ready stock => ?_
        have empty := Option.bind_eq_none_iff.1 unserved ready stock
        split_ifs at empty with free
        have gone : pagelistRemove ready.cache .free = none := by rw [pagelistRemove, free]
        simp [gone]
      · simp [queue] at unserved
    cases rounds with
    | zero => rfl
    | succ rounds =>
      rw [fsGenericRead, sane.miss (sane.vacant hit)]
      simp only [some_bind, got]
      rfl

theorem sizeAfter_lt (fits : files.stSize inode < 2 ^ 64) : files.sizeAfter inode offset < 2 ^ 64 := by
  rw [Files.sizeAfter]
  split
  next => exact Nat.mod_lt _ (by decide)
  next => exact fits

theorem sizeAfter_le_iff (small : offset < 2 ^ 64) :
    files.sizeAfter inode offset ≤ max (files.stSize inode) (files.trueSize inode) ↔ files.KeepsSize inode offset := by
  rw [Files.sizeAfter, Files.KeepsSize]
  by_cases fill : files.fills inode offset
  · have page : files.tret inode offset ≤ 4096 := Nat.min_le_left ..
    have stored : pageMask offset < files.trueSize inode := fill.2.1
    have inPage := pageMask_add_mod offset
    have below : offset % pageSize < 4096 := Nat.mod_lt _ (by decide)
    simp only [fill, true_and, forall_const]
    split
    next grows =>
      by_cases wraps : 2 ^ 64 ≤ offset + files.tret inode offset
      · refine iff_of_true ?_ (.inr (.inr wraps))
        have rest : wrap (offset + files.tret inode offset) = offset + files.tret inode offset - 2 ^ 64 := by
          rw [wrap]
          omega
        omega
      · have whole : wrap (offset + files.tret inode offset) = offset + files.tret inode offset :=
          Nat.mod_eq_of_lt (by omega)
        have part : wrap (files.tret inode offset + pageMask offset) = files.tret inode offset + pageMask offset :=
          Nat.mod_eq_of_lt (by omega)
        omega
    next stays => exact iff_of_true (Nat.le_max_left ..) (.inl (Nat.not_lt.1 stays))
  · rw [if_neg fun both => fill both.1]
    exact iff_of_true (Nat.le_max_left ..) fun filled => absurd filled fill

end

theorem zero_available_iff {stSize offset : Nat} {len : Int} (_ : 0 ≤ len) :
    0 = available stSize offset len ↔ stSize ≤ offset ∨ len = 0 := by
  have room : 0 < pageSize - offset % pageSize := Nat.sub_pos_of_lt (Nat.mod_lt _ (by decide))
  rw [available]
  split
  next => omega
  next behind => exact iff_of_true rfl (.inl (Nat.not_lt.1 behind))

section

variable {len : Nat} {data : Nat -> UInt8} {state : State} {members : Members}
  (reached : Tracks len data (state, members))
  (targets : Targets) (rounds : Nat) (backing : Nat -> List UInt8) (inode offset : Nat) (count : Int)

include reached

theorem fsInodeRead_unserved (unserved : servedFrom targets rounds ⟨state.cache, backing⟩ inode offset = none) :
    fsInodeRead targets rounds ⟨state.cache, backing⟩ inode offset count = none := by
  obtain ⟨⟨place, filed⟩, placed⟩ := reached.placed
  rw [fsInodeRead, fsGenericRead_unserved ⟨⟨place, filed⟩, placed⟩ unserved]
  rfl

theorem fsInodeRead_served (two : 2 ≤ rounds) {ready : Files}
    (served : servedFrom targets rounds ⟨state.cache, backing⟩ inode offset = some ready) (small : offset < 2 ^ 64)
    (fits : (state.cache.inode inode).stSize < 2 ^ 64) (positive : 0 ≤ count) :
    ∃ ret bytes after, fsInodeRead targets rounds ⟨state.cache, backing⟩ inode offset count = some (ret, bytes, after) ∧
      (ret = available (after.stSize inode) offset count ∧
          after.stSize inode ≤ max (state.cache.inode inode).stSize (after.trueSize inode) ↔
        ready.ReturnsWell inode offset count ∧ ready.KeepsSize inode offset) := by
  obtain ⟨⟨place, filed⟩, placed⟩ := reached.placed
  obtain ⟨found, after, members', ran, sane, member, found_iff, size, grown, same⟩ :=
    fsGenericRead_size ⟨⟨place, filed⟩, placed⟩ served two
  have fits' : ready.stSize inode < 2 ^ 64 := size.trans_lt fits
  have limit : ready.sizeAfter inode offset ≤ max (state.cache.inode inode).stSize (after.trueSize inode) ↔
      ready.KeepsSize inode offset := by
    rw [← sizeAfter_le_iff small, size, Files.trueSize, same]
    rfl
  rw [fsInodeRead, ran]
  cases found with
  | none =>
    have missed : ¬ (ready.hits inode offset = true ∨ ready.fills inode offset) := fun either => by
      simpa using found_iff.2 either
    refine ⟨0, [], after, rfl, ?_⟩
    rw [grown, limit, zero_available_iff positive, Files.ReturnsWell, if_neg missed]
  | some page =>
    simp only [some_bind, pcPutPage_eq (sane.owner (member page rfl))]
    refine ⟨_, _, _, rfl, ?_⟩
    have kept : (after.withCache (addCount after.cache page (-1))).stSize inode = ready.sizeAfter inode offset := grown
    have stored : (after.withCache (addCount after.cache page (-1))).trueSize inode = after.trueSize inode := rfl
    rw [kept, stored, grown, limit, readLength_iff small (sizeAfter_lt fits') positive, Files.ReturnsWell,
      if_pos (found_iff.1 rfl)]

end

theorem read_size_iff (len : Nat) (data : Nat -> UInt8) (state : State) (members : Members)
    (reached : Tracks len data (state, members)) (targets : Targets) (rounds : Nat) (two : 2 ≤ rounds)
    (backing : Nat -> List UInt8) (inode offset : Nat) (count : Int) (small : offset < 2 ^ 64)
    (fits : (state.cache.inode inode).stSize < 2 ^ 64) (positive : 0 ≤ count) :
    ((∃ ret bytes after, fsInodeRead targets rounds ⟨state.cache, backing⟩ inode offset count = some (ret, bytes, after) ∧
        ret = available (after.stSize inode) offset count ∧
        after.stSize inode ≤ max (state.cache.inode inode).stSize (after.trueSize inode)) ↔
      ∃ ready, servedFrom targets rounds ⟨state.cache, backing⟩ inode offset = some ready ∧
        ready.ReturnsWell inode offset count ∧ ready.KeepsSize inode offset) ∧
    ((fsInodeRead targets rounds ⟨state.cache, backing⟩ inode offset count).isSome ↔
      (servedFrom targets rounds ⟨state.cache, backing⟩ inode offset).isSome) := by
  cases served : servedFrom targets rounds ⟨state.cache, backing⟩ inode offset with
  | none => simp [fsInodeRead_unserved reached targets rounds backing inode offset count served]
  | some ready =>
    obtain ⟨ret, bytes, after, ran, right⟩ :=
      fsInodeRead_served reached targets rounds backing inode offset count two served small fits positive
    simpa [ran] using right

def calm : Targets := ⟨fun _ _ => false, fun _ _ => false, fun _ _ => false, fun _ _ => false⟩

def hundred : Files := ⟨smallCache.cache, fun _ => replicate 100 7⟩

theorem read_size_iff_hundred : ∃ ret bytes after, fsInodeRead calm 2 hundred 0 0 10 = some (ret, bytes, after) ∧
    ret = available (after.stSize 0) 0 10 ∧ after.stSize 0 ≤ max 0 (after.trueSize 0) := by
  have outcome : (servedFrom calm 2 hundred 0 0).any (fun ready => ready.ReturnsWell 0 0 10 ∧ ready.KeepsSize 0 0) =
      true := by decide +kernel
  have empty : (smallCache.cache.inode 0).stSize = 0 := by decide +kernel
  have right := (read_size_iff (117 * pageSize) (fun _ => 0) smallCache (fun _ => ∅) (.start rfl) calm 2 (by decide)
    hundred.backing 0 0 10 (by decide) (by rw [empty]; decide) (by decide)).1.2 (holds_of_any outcome)
  rw [empty] at right
  exact right

theorem read_size_overshoots : ∃ ret bytes first, fsInodeRead calm 2 hundred 0 50 10 = some (ret, bytes, first) ∧
    (first.backing 0).length = 100 ∧ first.stSize 0 = 150 ∧
    ∃ bytes' second, fsInodeRead calm 2 first 0 300 10 = some (-150, bytes', second) := by
  have outcome : (fsInodeRead calm 2 hundred 0 50 10).any (fun call => (call.2.2.backing 0).length = 100 ∧
      call.2.2.stSize 0 = 150 ∧ (fsInodeRead calm 2 call.2.2 0 300 10).map Prod.fst = some (-150)) = true := by
    decide +kernel
  obtain ⟨⟨ret, bytes, first⟩, ran, length, size, again⟩ := holds_of_any outcome
  obtain ⟨⟨value, bytes', second⟩, ran', same⟩ := Option.map_eq_some_iff.1 again
  cases same
  exact ⟨ret, bytes, first, ran, length, size, bytes', second, ran'⟩

end JinyKernel.FileIo
