import JinyKernel.FileIo.Sync

-- `pc_housekeep` whatever the file system answers.

namespace JinyKernel.FileIo

open PageCache List Option Run

section

variable (targets : Targets) (write : Nat -> Nat -> Int)

def Targets.sync (cache : Cache) : Prop :=
  targets.free cache ∨ targets.manyDirty (cache.list .dirty).count cache.totalPages

instance (cache : Cache) : Decidable (targets.sync cache) := inferInstanceAs (Decidable (_ ∨ _))

def syncPhase (limit : Nat) : Nat -> Nat -> Cache -> Option Cache
  | 0, _, _ => none
  | rounds + 1, call, cache =>
    if targets.sync cache then do
      let (ret, call, cache) ← dataSync write maxPagesSync limit call 0 cache
      if ret = maxPagesSync then syncPhase limit rounds call cache else some cache
    else some cache

def agePhase (rounds : Nat) (cache : Cache) : Option Cache :=
  if targets.fewInactive (cache.list .inactive).count cache.totalPages then ageLoop targets rounds 0 cache else some cache

structure Rounds where
  sync : Nat
  write : Nat
  age : Nat
  evict : Nat

def housekeep (rounds : Rounds) (cache : Cache) : Option Cache := do
  let cache ← syncPhase targets write rounds.write rounds.sync 0 cache
  let cache ← agePhase targets rounds.age cache
  evictLoop targets rounds.evict 0 cache

def Targets.Share : Prop := ∀ (i : Nat) (count : Int), targets.ageMore i count -> i < count

def Aged (i : Nat) (cache : Cache) (active : List Nat) : Prop :=
  ∃ k page, active[k]? = some page ∧ (∀ j ≤ k, targets.ageMore (i + j) active.length) ∧
    ofOwner Inode.executing cache page = false

def firstDirty (cache : Cache) : List Nat := (cache.list .dirty).queue.take (maxPagesSync + 1)

def Refills (cache : Cache) : Prop :=
  (cache.list .inactive).queue ≠ [] ∨ (∃ page ∈ firstDirty cache, cleanedTo cache page = .inactive) ∨
    targets.fewInactive 0 cache.totalPages ∧ Aged targets 0 cache ((cache.list .active).queue ++ firstDirty cache)

end

section

variable {targets : Targets} {write : Nat -> Nat -> Int} {cache after : Cache} {place : Nat -> Option (Nat × Nat)}
  {rounds : Nat}

theorem free_congr (inv : CacheInv cache place) (inv' : CacheInv after place)
    (queue : (after.list .free).queue = (cache.list .free).queue) (total : after.totalPages = cache.totalPages) :
    targets.free after = targets.free cache := by
  rw [Targets.free, Targets.free, inv'.lists.counts, inv.lists.counts, queue, total]

variable {i page limit : Nat} {rest : List Nat}

theorem ageLoop_step (inv : CacheInv cache place) (first : (cache.list .active).queue = page :: rest)
    (more : targets.ageMore i (cache.list .active).count) (rounds : Nat) :
    ageLoop targets (rounds + 1) i cache = ageLoop targets rounds (i + 1)
      (refile cache page (some (if ofOwner Inode.executing cache page then .active else .inactive))) := by
  obtain ⟨slot, here⟩ := CacheInv.first_placed inv (by decide) first
  have owner := inv.owned page slot here
  have same : ((refile cache page none).page page).fsInode = some slot.1 :=
    ((refile_sameOwners cache page none).fsInode page).trans owner
  have flag : ofOwner Inode.executing cache page = ((refile cache page none).inode slot.1).executing := by
    simp only [ofOwner, owner, any_some]
    rfl
  simp [ageLoop, if_pos more, (requeue inv.lists .active first).1, same, (requeue inv.lists _ first).2, flag]

theorem SameOwners.aged (same : SameOwners cache after) (i : Nat) (active : List Nat) :
    Aged targets i after active ↔ Aged targets i cache active := by
  rw [Aged, same.ofOwner, Aged]

theorem aged_rotate (share : targets.Share) (busy : ofOwner Inode.executing cache page)
    (more : targets.ageMore i (rest.length + 1 : Nat)) :
    Aged targets (i + 1) cache (rest ++ [page]) ↔ Aged targets i cache (page :: rest) := by
  have length : (rest ++ [page]).length = rest.length + 1 := length_append
  constructor
  · rintro ⟨k, other, found, reached, idle⟩
    have below := share _ _ (reached k le_rfl)
    rw [length] at below
    rw [getElem?_append_left (by omega)] at found
    refine ⟨k + 1, other, found, fun j low => ?_, idle⟩
    cases j with
    | zero => exact more
    | succ j =>
      have step := reached j (by omega)
      rwa [length, show i + 1 + j = i + (j + 1) by omega] at step
  rintro ⟨k, other, found, reached, idle⟩
  cases k with
  | zero =>
    cases found
    rw [idle] at busy
    cases busy
  | succ k =>
    have later : rest[k]? = some other := found
    have inside := (List.getElem?_eq_some_iff.1 later).1
    refine ⟨k, other, (getElem?_append_left inside).trans later, fun j low => ?_, idle⟩
    rw [length, show i + 1 + j = i + (j + 1) by omega]
    exact reached (j + 1) (by omega)

theorem ageLoop_spec (share : targets.Share) (rounds i : Nat) (inv : CacheInv cache place) :
    ((cache.list .active).queue.length - i < rounds -> ∃ after, ageLoop targets rounds i cache = some after) ∧
    ∀ after, ageLoop targets rounds i cache = some after ->
      CacheInv after place ∧ targets.free after = targets.free cache ∧
      ((after.list .inactive).queue ≠ [] ↔
        (cache.list .inactive).queue ≠ [] ∨ Aged targets i cache (cache.list .active).queue) := by
  induction rounds generalizing i cache with
  | zero => exact ⟨fun enough => absurd enough (Nat.not_lt_zero _), fun _ ran => nomatch ran⟩
  | succ rounds ih =>
    have count := inv.lists.counts .active
    by_cases more : targets.ageMore i (cache.list .active).count
    · have below := share i _ more
      cases first : (cache.list .active).queue with
      | nil =>
        rw [count, first, length_nil] at below
        omega
      | cons page rest =>
        rw [ageLoop_step inv first more]
        rw [count, first, length_cons] at below more
        obtain ⟨slot, here⟩ := CacheInv.first_placed inv (by decide) first
        have queues := refile_queue inv.lists first
        set target : ListType := if ofOwner Inode.executing cache page then .active else .inactive with targetDef
        have clean : target = .active ∨ target = .inactive := by
          rw [targetDef]
          split <;> simp
        have inv' := inv.refile page (some target) (by rcases clean with same | same <;> simp [here, same])
        obtain ⟨returns, spec⟩ := ih (i + 1) inv'
        refine ⟨fun enough => returns ?_, fun after ran => ?_⟩
        · rw [queues, if_pos rfl, length_append]
          rw [length_cons] at enough
          split <;> simp <;> omega
        obtain ⟨inv'', free, inactive⟩ := spec after ran
        refine ⟨inv'', free.trans (free_congr inv inv' ?_ rfl), inactive.trans ?_⟩
        · rw [queues, if_neg (by decide), if_neg (by rcases clean with same | same <;> simp [same]), append_nil]
        rw [(refile_sameOwners cache page _).aged, queues _ .inactive, queues _ .active, if_neg (by decide), if_pos rfl,
          targetDef]
        split
        next busy => rw [if_neg (by decide), if_pos rfl, append_nil, aged_rotate share busy more]
        next busy =>
          rw [if_pos rfl]
          refine iff_of_true (.inl (by simp)) (.inr ⟨0, page, rfl, fun j low => ?_, Bool.eq_false_iff.2 busy⟩)
          obtain rfl := Nat.le_zero.1 low
          exact more
    · rw [ageLoop, if_neg more]
      refine ⟨fun _ => ⟨cache, rfl⟩, fun after ran => ?_⟩
      cases ran
      refine ⟨inv, rfl, ?_⟩
      rw [or_iff_left]
      rintro ⟨k, page, -, reached, -⟩
      have start := reached 0 (Nat.zero_le k)
      rw [count] at more
      exact more start

theorem agePhase_spec (share : targets.Share) (inv : CacheInv cache place)
    (ran : agePhase targets rounds cache = some after) :
    CacheInv after place ∧ targets.free after = targets.free cache ∧
      ((after.list .inactive).queue ≠ [] ↔ (cache.list .inactive).queue ≠ [] ∨
        targets.fewInactive (cache.list .inactive).count cache.totalPages ∧
          Aged targets 0 cache (cache.list .active).queue) := by
  rw [agePhase] at ran
  split at ran
  next few => simpa only [few, true_and] using (ageLoop_spec share rounds 0 inv).2 after ran
  next many =>
    cases ran
    exact ⟨inv, rfl, by simp [many]⟩

theorem evictLoop_null (inv : CacheInv cache place) (few : targets.free cache) (empty : (cache.list .inactive).queue = [])
    (rounds : Nat) (count : Int) : evictLoop targets rounds count cache = none := by
  cases rounds with
  | zero => rfl
  | succ rounds => simp [evictLoop, few, pagelistRemove_eq inv.lists, empty]

theorem evictLoop_step (lists : ListsInv cache) (first : (cache.list .inactive).queue = page :: rest)
    (few : targets.free cache)
    {ok : Bool} (deleted : pcDeletePage (refile cache page (some .inactive)) page = some (ok, after)) (rounds : Nat)
    (count : Int) :
    evictLoop targets (rounds + 1) count cache =
      if count + 1 > (after.list .inactive).count then some after else evictLoop targets rounds (count + 1) after := by
  obtain ⟨took, added⟩ := requeue lists .inactive first
  simp [evictLoop, if_pos few, took, added, deleted]

theorem evictLoop_returns (rounds count : Nat) (inv : CacheInv cache place)
    (enough : (cache.list .inactive).queue.length < count + rounds) (within : count ≤ (cache.list .inactive).queue.length)
    (stocked : (cache.list .inactive).queue ≠ []) : ∃ after, evictLoop targets rounds count cache = some after := by
  induction rounds generalizing count cache place with
  | zero => omega
  | succ rounds ih =>
    by_cases few : targets.free cache
    · obtain ⟨page, rest, first⟩ := exists_cons_of_ne_nil stocked
      obtain ⟨slot, here⟩ := CacheInv.first_placed inv (by decide) first
      have inv' := inv.refile page (some .inactive) (by simp [here])
      have turned : ((refile cache page (some .inactive)).list .inactive).queue.length =
          (cache.list .inactive).queue.length := by
        rw [refile_queue inv.lists first, if_pos rfl, if_pos rfl, first]
        simp
      obtain ⟨ok, after, place', deleted, inv'', shorter⟩ : ∃ ok after place',
          pcDeletePage (refile cache page (some .inactive)) page = some (ok, after) ∧ CacheInv after place' ∧
            (after.list .inactive).queue.length ≤ (cache.list .inactive).queue.length := by
        rw [pcDeletePage_eq inv' here]
        split
        next => exact ⟨_, _, place, rfl, inv', turned.le⟩
        next => exact ⟨_, _, _, rfl, inv'.delete slot.1 page, (length_erase_le ..).trans turned.le⟩
      rw [evictLoop_step inv.lists first few deleted]
      split
      next => exact ⟨after, rfl⟩
      next more =>
        rw [inv''.lists.counts] at more
        exact ih (count + 1) inv'' (by omega) (by omega) (ne_nil_of_length_pos (by omega))
    · exact ⟨cache, by rw [evictLoop, if_neg few]⟩

theorem owed_firstDirty (cache : Cache) : owed maxPagesSync 0 (cache.list .dirty).queue = firstDirty cache := rfl

theorem firstDirty_split (cache : Cache) :
    (cache.list .dirty).queue = firstDirty cache ++ (cache.list .dirty).queue.drop (maxPagesSync + 1) :=
  (take_append_drop ..).symm

theorem syncPhase_clean (empty : (cache.list .dirty).queue = []) {call : Nat}
    (ran : syncPhase targets write limit rounds call cache = some after) : after = cache := by
  cases rounds with
  | zero => cases ran
  | succ rounds =>
    rw [syncPhase] at ran
    split at ran
    next =>
      cases limit with
      | zero => cases ran
      | succ limit =>
        rw [dataSync, empty] at ran
        exact (some.inj ran).symm
    next => exact (some.inj ran).symm

-- The count is 100 only when just 100 pages were dirty.
theorem synced_empty (inv : CacheInv cache place) (count : ((firstDirty cache).length : Int) = maxPagesSync) :
    (((firstDirty cache).foldl clean cache).list .dirty).queue = [] := by
  rw [firstDirty, length_take] at count
  rw [(cleans_spec inv (firstDirty_split cache)).2.2, if_pos rfl, drop_of_length_le (by omega)]
  simp [cleanedTo_ne]

theorem syncPhase_spec (inv : CacheInv cache place) (ran : syncPhase targets write limit rounds 0 cache = some after) :
    (targets.sync cache -> ∃ calls, List.SublistForall₂ (Full write cache) (firstDirty cache) (List.range calls)) ∧
      after = if targets.sync cache then (firstDirty cache).foldl clean cache else cache := by
  cases rounds with
  | zero => cases ran
  | succ rounds =>
    rw [syncPhase] at ran
    split at ran
    next due =>
      obtain ⟨⟨ret, call, middle⟩, wrote, ran⟩ := bind_iff.1 ran
      obtain ⟨count, rfl, answered⟩ := dataSync_result inv (fun _ => by decide) wrote
      simp only [range_eq_range', if_pos due]
      refine ⟨fun _ => answered, ?_⟩
      dsimp only at ran count
      split at ran
      next full =>
        rw [Int.zero_add] at count
        exact syncPhase_clean (synced_empty inv (count.symm.trans full)) ran
      next => exact (some.inj ran).symm
    next idle =>
      rw [if_neg idle]
      exact ⟨fun due => absurd due idle, (some.inj ran).symm⟩

theorem syncPhase_returns (inv : CacheInv cache place)
    (answered : targets.sync cache ->
      ∃ calls, List.SublistForall₂ (Full write cache) (firstDirty cache) (List.range calls)) :
    ∃ limit rounds after, syncPhase targets write limit rounds 0 cache = some after := by
  by_cases due : targets.sync cache
  · obtain ⟨calls, served⟩ := answered due
    rw [range_eq_range', ← owed_firstDirty] at served
    have within : (maxPagesSync : Int) > 0 -> (0 : Int) ≤ maxPagesSync := fun _ => by decide
    obtain ⟨limit, ⟨ret, call, middle⟩, wrote⟩ := dataSync_returns inv within served
    obtain ⟨count, rfl, -⟩ := dataSync_result inv within wrote
    rw [owed_firstDirty] at count wrote
    rw [Int.zero_add] at count
    cases limit with
    | zero => cases wrote
    | succ limit =>
      by_cases full : ret = maxPagesSync
      · have empty := synced_empty inv (count.symm.trans full)
        have again : dataSync write maxPagesSync (limit + 1) call 0 ((firstDirty cache).foldl clean cache) =
            some (0, call, (firstDirty cache).foldl clean cache) := by rw [dataSync, empty]
        have short : (0 : Int) ≠ maxPagesSync := by decide
        exact ⟨limit + 1, 2, (firstDirty cache).foldl clean cache, by simp [syncPhase, due, wrote, full, again, short]⟩
      · exact ⟨limit + 1, 1, (firstDirty cache).foldl clean cache, by simp [syncPhase, due, wrote, full]⟩
  · exact ⟨0, 1, cache, by rw [syncPhase, if_neg due]⟩

def afterSync (targets : Targets) (cache : Cache) : Cache :=
  if targets.sync cache then (firstDirty cache).foldl clean cache else cache

theorem afterSync_spec (inv : CacheInv cache place) :
    CacheInv (afterSync targets cache) place ∧ targets.free (afterSync targets cache) = targets.free cache := by
  obtain ⟨inv', owners, queues⟩ := cleans_spec inv (firstDirty_split cache)
  rw [afterSync]
  split
  next =>
    refine ⟨inv', free_congr inv inv' ?_ owners.totalPages⟩
    rw [queues, if_neg (by decide)]
    simp [cleanedTo_ne]
  next => exact ⟨inv, rfl⟩

theorem refills_iff (inv : CacheInv cache place) (few : targets.free cache) :
    ((afterSync targets cache).list .inactive).queue ≠ [] ∨
      targets.fewInactive ((afterSync targets cache).list .inactive).count (afterSync targets cache).totalPages ∧
        Aged targets 0 (afterSync targets cache) ((afterSync targets cache).list .active).queue ↔
          Refills targets cache := by
  obtain ⟨inv', owners, queues⟩ := cleans_spec inv (firstDirty_split cache)
  rw [afterSync, if_pos (.inl few), owners.aged, owners.totalPages, inv'.lists.counts, queues .inactive, queues .active,
    if_neg (by decide), if_neg (by decide), Refills]
  by_cases stock : (cache.list .inactive).queue ≠ [] ∨ ∃ page ∈ firstDirty cache, cleanedTo cache page = .inactive
  · refine iff_of_true (.inl ?_) (stock.imp_right .inl)
    rcases stock with stock | ⟨page, member, inactive⟩
    · simp [stock]
    · exact append_ne_nil_of_right_ne_nil _ (ne_nil_of_mem (mem_filter.2 ⟨member, decide_eq_true inactive⟩))
  obtain ⟨empty, others⟩ := not_or.1 stock
  have active (page : Nat) (member : page ∈ firstDirty cache) : cleanedTo cache page = .active := by
    have not : cleanedTo cache page ≠ .inactive := fun inactive => others ⟨page, member, inactive⟩
    rw [cleanedTo] at not ⊢
    split at not <;> simp_all
  have kept : (firstDirty cache).filter (fun page => cleanedTo cache page = .inactive) = [] :=
    filter_eq_nil_iff.2 fun page member => by simp [active page member]
  have all : (firstDirty cache).filter (fun page => cleanedTo cache page = .active) = firstDirty cache :=
    filter_eq_self.2 fun page member => by simp [active page member]
  rw [kept, all, append_nil, not_not.1 empty]
  simp [others]

theorem housekeep_needs (share : targets.Share) (inv : CacheInv cache place) {rounds : Rounds}
    (ran : housekeep targets write rounds cache = some after) :
    (targets.sync cache -> ∃ calls, List.SublistForall₂ (Full write cache) (firstDirty cache) (List.range calls)) ∧
      (targets.free cache -> Refills targets cache) := by
  obtain ⟨middle, synced, ran⟩ := bind_iff.1 ran
  obtain ⟨aged, ageing, evicting⟩ := bind_iff.1 ran
  obtain ⟨answered, rfl⟩ := syncPhase_spec inv synced
  refine ⟨answered, fun few => (refills_iff inv few).1 ?_⟩
  obtain ⟨inv', free⟩ : _ ∧ targets.free (afterSync targets cache) = _ := afterSync_spec inv
  obtain ⟨inv'', same, stocked⟩ := agePhase_spec share inv' ageing
  refine stocked.1 fun empty => ?_
  rw [evictLoop_null inv'' (same.trans (free.trans few)) empty] at evicting
  cases evicting

theorem housekeep_returns_iff (targets : Targets) (write : Nat -> Nat -> Int) (share : targets.Share) {len : Nat}
    {data : Nat -> UInt8} {state : State} (reached : Reaches len data state) :
    (∃ rounds after, housekeep targets write rounds state.cache = some after) ↔
      (targets.sync state.cache ->
        ∃ calls, List.SublistForall₂ (Full write state.cache) (firstDirty state.cache) (List.range calls)) ∧
      (targets.free state.cache -> Refills targets state.cache) := by
  obtain ⟨place, ⟨inv, -, -, -, -⟩⟩ := reached.sound.1
  refine ⟨fun ⟨rounds, after, ran⟩ => housekeep_needs share inv ran, fun ⟨answered, refills⟩ => ?_⟩
  obtain ⟨limit, rounds, middle, synced⟩ := syncPhase_returns inv answered
  obtain ⟨-, rfl⟩ := syncPhase_spec inv synced
  obtain ⟨inv', free⟩ : _ ∧ targets.free (afterSync targets state.cache) = _ := afterSync_spec inv
  obtain ⟨age, aged, ageing⟩ : ∃ age aged, agePhase targets age (afterSync targets state.cache) = some aged := by
    by_cases few : targets.fewInactive ((afterSync targets state.cache).list .inactive).count
        (afterSync targets state.cache).totalPages
    · simp only [agePhase, if_pos few]
      exact ⟨_, (ageLoop_spec share _ 0 inv').1 (Nat.lt_succ_self _)⟩
    · exact ⟨0, _, by rw [agePhase, if_neg few]⟩
  obtain ⟨inv'', same, stocked⟩ := agePhase_spec share inv' ageing
  obtain ⟨evict, after, evicting⟩ : ∃ evict after, evictLoop targets evict 0 aged = some after := by
    by_cases few : targets.free aged
    · rw [same, free] at few
      exact ⟨(aged.list .inactive).queue.length + 1, evictLoop_returns _ 0 inv'' (by omega) (Nat.zero_le _)
        (stocked.2 ((refills_iff inv few).2 (refills few)))⟩
    · exact ⟨1, aged, by rw [evictLoop, if_neg few]⟩
  exact ⟨⟨rounds, limit, age, evict⟩, after,
    bind_eq_some_iff.2 ⟨_, synced, bind_eq_some_iff.2 ⟨aged, ageing, evicting⟩⟩⟩

end

theorem syncLoop_cache (targets : Targets) (limit rounds call : Nat) (files : Files) :
    (syncLoop targets limit rounds files).map Files.cache = syncPhase targets whole limit rounds call files.cache := by
  induction rounds generalizing call files with
  | zero => rfl
  | succ rounds ih =>
    have synced := fsDataSync_cache maxPagesSync limit 0 call files
    rw [Nat.cast_zero] at synced
    by_cases due : targets.sync files.cache
    · rw [syncLoop, if_pos (show _ ∨ _ from due), syncPhase, if_pos due]
      cases ran : fsDataSync maxPagesSync limit 0 files with
      | none =>
        rw [ran, map_none, eq_comm, map_eq_none_iff] at synced
        simp [synced]
      | some out =>
        obtain ⟨ret, after⟩ := out
        rw [ran, map_some, eq_comm, map_eq_some_iff] at synced
        obtain ⟨⟨ret', call', cache⟩, ran', same⟩ := synced
        obtain ⟨rfl, rfl⟩ := Prod.mk.inj same
        simp only [ran', some_bind, Nat.cast_inj]
        split_ifs
        · exact ih call' after
        · rfl
    · rw [syncLoop, if_neg (show ¬ (_ ∨ _) from due), syncPhase, if_neg due]
      rfl

theorem pcHousekeep_cache (targets : Targets) (rounds : Nat) (files : Files) :
    (pcHousekeep targets rounds files).map Files.cache =
      housekeep targets whole ⟨rounds, rounds, rounds, rounds⟩ files.cache := by
  simp only [pcHousekeep, housekeep, agePhase, ← syncLoop_cache targets rounds rounds 0 files, bind_eq_bind, map_bind,
    bind_map]
  refine bind_congr fun middle _ => ?_
  simp only [Function.comp_def, Files.withCache]
  split_ifs <;> simp

theorem getFreePage_cache (targets : Targets) (rounds : Nat) (files : Files) (clearPage : Bool) :
    (getFreePage targets rounds files clearPage).map (fun out => (out.1, out.2.cache)) =
      pcGetFreePage (housekeep targets whole ⟨rounds, rounds, rounds, rounds⟩) files.cache clearPage := by
  rw [getFreePage, pcGetFreePage, ← pcHousekeep_cache]
  cases queue : (files.cache.list .free).queue with
  | nil =>
    have empty : pagelistRemove files.cache .free = none := by rw [pagelistRemove, queue]
    simp only [empty, if_true, bind_eq_bind, map_bind, bind_map, Function.comp_def, map_some, Files.withCache]
  | cons page rest =>
    simp only [pagelistRemove, queue, reduceCtorEq, if_false, some_bind]
    rfl

def tenths : Targets where
  fewFree count total := 10 * count < total
  manyDirty count total := 5 * count > total
  fewInactive count total := 10 * count < 4 * total
  ageMore i count := 10 * i < count

theorem tenths_share : tenths.Share := by
  intro i count more
  have below := of_decide_eq_true more
  omega

theorem housekeep_returns_pair : ∃ state, Reaches (117 * pageSize) (fun _ => 0) state ∧ tenths.free state.cache ∧
    (state.cache.list .dirty).queue = [115, 116] ∧
    ∃ rounds after, housekeep tenths whole rounds state.cache = some after := by
  have outcome : (dirtying.foldlM mayStep smallCache).any
      (fun state => tenths.free state.cache ∧ (state.cache.list .dirty).queue = [115, 116] ∧
        cleanedTo state.cache 115 = .inactive) = true := by decide +kernel
  obtain ⟨state, ran, few, queue, inactive⟩ := holds_of_any outcome
  have reached := mayRun_reaches ran
  have first : 115 ∈ firstDirty state.cache := by simp [firstDirty, queue, maxPagesSync]
  refine ⟨state, reached, few, queue, (housekeep_returns_iff tenths whole tenths_share reached).2
    ⟨fun _ => ⟨(firstDirty state.cache).length, ?_⟩, fun _ => .inr (.inl ⟨115, first, inactive⟩)⟩⟩
  rw [range_eq_range']
  exact answered_whole _ 0

theorem housekeep_null_page : ∃ state, Reaches (117 * pageSize) (fun _ => 0) state ∧
    ∀ rounds, housekeep tenths whole rounds state.cache = none := by
  have outcome : ([.getFreePage 7 true, .getFreePage 7 true].foldlM mayStep smallCache).any (fun state =>
        tenths.free state.cache ∧ (state.cache.list .inactive).queue = [] ∧ (state.cache.list .dirty).queue = [] ∧
          (state.cache.list .active).queue = []) = true := by decide +kernel
  obtain ⟨state, ran, few, inactive, dirty, active⟩ := holds_of_any outcome
  have reached := mayRun_reaches ran
  obtain ⟨place, ⟨inv, -, -, -, -⟩⟩ := reached.sound.1
  refine ⟨state, reached, fun rounds => eq_none_iff_forall_ne_some.2 fun after ran => ?_⟩
  have refills := (housekeep_needs tenths_share inv ran).2 few
  simp [Refills, Aged, firstDirty, inactive, dirty, active] at refills

end JinyKernel.FileIo
