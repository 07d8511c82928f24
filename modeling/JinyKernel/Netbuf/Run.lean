import JinyKernel.Netbuf.Calls

namespace JinyKernel.Netbuf

open Buddy Dyadic Filing Function List Option Run

def Start (boot : Boot) (maxCpus : Nat) (state : State) : Prop :=
  boot.Start state.buddy ∧ state.buckets = initPercpuPageCache maxCpus ∧ state.zeropage = ⟨[], []⟩ ∧
    ∀ p, state.refs p = 0

def Allowed (maxCpus : Nat) (state : State) : Event -> Prop
  | .jallocPage cpu _ => cpu < maxCpus
  | .jpageDup addr => (state.page addr).netBuf = true -> 0 < state.refs (pageMask addr)
  | .bulkFreePages cpu mbufs => cpu < maxCpus ∧ ∀ p, (mbufs.map pageMask).count p ≤ state.refs p
  | .jfreePage cpu p => cpu < maxCpus ∧ 0 < state.refs (pageMask p)
  | .housekeep => True

def Countable (state : State) : Event -> Prop
  | .jpageDup addr => (state.page addr).netBuf = true -> state.refs (pageMask addr) + 1 < 2 ^ 31
  | _ => True

abbrev Reaches (boot : Boot) (maxCpus : Nat) (config : Config) (state : State) : Prop :=
  Reachable (Start boot maxCpus) (step config) (fun state event => Allowed maxCpus state event ∧ Countable state event)
    state

section

variable {boot : Boot} {maxCpus : Nat} {config : Config} {state : State}

theorem Start.inv (start : Start boot maxCpus state) : Inv boot.Released (maxBuckets maxCpus) state none := by
  obtain ⟨⟨booted, unused⟩, buckets, zeropage, refs⟩ := start
  have reached : boot.Reaches state.buddy := .start ⟨booted, unused⟩
  have nothing (place : Place) : state.cached place = [] := by
    rw [State.cached, buckets, zeropage]
    cases place with
    | bucket bucket => exact (initPercpuPageCache_blank maxCpus).1 bucket
    | dirty | clean => rfl
  have nowhere (p : Nat) : ¬ Somewhere state.cached p := by
    rintro ⟨place, member⟩
    rw [nothing place] at member
    cases member
  refine ⟨buckets ▸ initPercpuPageCache_shelved maxCpus, state.buddy, fun _ => none, rfl, ?_⟩
  refine ⟨⟨reached.inv.1, fun _ marked => absurd rfl marked⟩, by simp [unused], ⟨fun place => ?_, ?_⟩, fun p => ?_, ?_⟩
  · rw [nothing place]
    exact nodup_nil
  · intro place other p here _
    exact absurd ⟨place, here⟩ (nowhere p)
  · exact ⟨by simp [unused, refs, nowhere], fun _ => refs p, by simp, by simp [refs]⟩
  · intro bucket p member
    exact absurd ⟨_, member⟩ (nowhere p)

theorem step_spec (inv : Inv boot.Released (maxBuckets maxCpus) state none) {event : Event}
    (allowed : Allowed maxCpus state event) (countable : Countable state event) :
    ∃ next, step config state event = some next ∧ Inv boot.Released (maxBuckets maxCpus) next none := by
  cases event with
  | jallocPage cpu flags =>
    obtain ⟨p, next, taken, after, -⟩ := jallocPage_spec config inv cpu flags
    exact ⟨next, by rw [step, taken]; rfl, after⟩
  | jpageDup addr => exact ⟨_, rfl, jpageDup_spec inv fun flagged => ⟨allowed flagged, countable flagged⟩⟩
  | bulkFreePages cpu mbufs =>
    obtain ⟨next, freed, after⟩ := bulkFreePages_spec config inv cpu mbufs allowed.2
    exact ⟨next, freed, after⟩
  | jfreePage cpu p =>
    obtain ⟨next, freed, after⟩ := bulkFreePages_spec config inv cpu [p] fun q => by
      rw [map_singleton, count_singleton]
      have held := allowed.2
      split
      next same =>
        rw [← beq_iff_eq.1 same]
        exact held
      next => exact Nat.zero_le _
    exact ⟨next, freed, after⟩
  | housekeep =>
    obtain ⟨next, kept, after⟩ := housekeepZeropageCache_spec config inv
    exact ⟨next, kept, after⟩

theorem Reaches.inv (reached : Reaches boot maxCpus config state) :
    Inv boot.Released (maxBuckets maxCpus) state none ∧
      ∀ event, Allowed maxCpus state event ∧ Countable state event -> (step config state event).isSome :=
  Reachable.progress (fun _ => Start.inv) (fun _ _ inv may => step_spec inv may.1 may.2) reached

variable {next : State}

theorem allocFresh_kept {flags p : Nat} (got : allocFresh state flags = some (p, next)) :
    next.buckets = state.buckets ∧ next.zeropage = state.zeropage := by
  obtain ⟨⟨q, buddy⟩, -, made⟩ := bind_iff.1 got
  dsimp only at made
  split at made
  · cases made
    exact ⟨rfl, rfl⟩
  split at made
  all_goals
    cases made
    exact ⟨rfl, rfl⟩

theorem freeFresh_kept {p : Nat} (freed : freeFresh state p = some next) :
    next.buckets = state.buckets ∧ next.zeropage = state.zeropage := by
  rw [freeFresh] at freed
  split at freed
  all_goals
    obtain ⟨buddy, -, made⟩ := bind_iff.1 freed
    cases made
    exact ⟨rfl, rfl⟩

variable (disabled : config.zeropageCache = false)

include disabled

theorem freePage_zeropage {cpu buf : Nat} (freed : freePage config cpu state buf = some next) :
    next.zeropage = state.zeropage := by
  simp only [freePage, freePast, disabled, Bool.false_eq_true, if_false] at freed
  split at freed
  · cases freed
    rfl
  split at freed
  · split at freed
    · cases freed
      rfl
    · exact (freeFresh_kept freed).2
  · exact (freeFresh_kept freed).2

theorem bulkFreePages_zeropage {cpu : Nat} (mbufs : List Nat)
    (freed : bulkFreePages config state cpu mbufs = some next) : next.zeropage = state.zeropage := by
  induction mbufs generalizing state with
  | nil =>
    cases freed
    rfl
  | cons buf rest ih =>
    obtain ⟨middle, first, later⟩ := bind_iff.1 freed
    rw [ih later, freePage_zeropage disabled first]

theorem step_zeropage {event : Event} (moved : step config state event = some next) :
    next.zeropage = state.zeropage := by
  cases event with
  | jallocPage cpu flags =>
    obtain ⟨⟨p, result⟩, taken, rfl⟩ := map_eq_some_iff.1 moved
    simp only [jallocPage, allocPast, disabled, Bool.false_eq_true, if_false, ne_eq, not_true_eq_false] at taken
    split at taken
    · split at taken
      · cases taken
        rfl
      · exact (allocFresh_kept taken).2
    · exact (allocFresh_kept taken).2
  | jpageDup addr =>
    cases moved
    rw [jpageDup]
    split <;> rfl
  | bulkFreePages cpu mbufs => exact bulkFreePages_zeropage disabled mbufs moved
  | jfreePage cpu p => exact bulkFreePages_zeropage disabled [p] moved
  | housekeep =>
    rw [step, housekeepZeropageCache, disabled] at moved
    cases moved
    rfl

theorem Reaches.zeropage (reached : Reaches boot maxCpus config state) :
    state.zeropage = ⟨[], []⟩ :=
  Reachable.invariant (fun _ start => start.2.2.1)
    (fun _ _ _ before _ moved => (step_zeropage disabled moved).trans before) reached

structure BucketsPlaced (maxCpus : Nat) (buckets : Buckets) : Prop where
  somewhere : ∀ bucket, bucket < maxBuckets maxCpus ↔ ∃ holder, bucket ∈ buckets.holding holder
  once : ∀ holder, (buckets.holding holder).Nodup
  single : ∀ holder other bucket, bucket ∈ buckets.holding holder -> bucket ∈ buckets.holding other -> holder = other
  empties : ∀ bucket ∈ buckets.emptyBuckets, buckets.stack bucket = []
  fulls : ∀ bucket ∈ buckets.fullBuckets, (buckets.stack bucket).length = maxStackSize

structure BlocksAccounted (boot : Boot) (state : State) : Prop where
  slots : ∀ bucket, (state.buckets.stack bucket).Nodup
  single : ∀ bucket other p, p ∈ state.buckets.stack bucket -> p ∈ state.buckets.stack other -> bucket = other
  unused : ∀ bucket p, p ∈ state.buckets.stack bucket -> state.refs p = 0
  uncounted : ∀ bucket p, p ∈ state.buckets.stack bucket ->
    (p, 2) ∈ state.buddy.outstanding ∧ (state.page p).netBuf = true ∧ (state.page p).count = 1
  used : ∀ p, 0 < state.refs p -> ∃ order, (p, order) ∈ state.buddy.outstanding
  netbufs : ∀ p, (p, 2) ∈ state.buddy.outstanding ->
    (0 < state.refs p ∧ (state.page p).count = state.refs p) ∨ ∃ bucket, p ∈ state.buckets.stack bucket
  pages : ∀ p order, (p, order) ∈ state.buddy.outstanding -> order = 2 ∨ (order = 0 ∧ state.refs p = 1)
  apart : (state.buddy.listed ++ state.buddy.held).Pairwise Block.Apart
  covers : ∀ frame, boot.Released frame ↔ ∃ b ∈ state.buddy.listed ++ state.buddy.held, b.Holds frame

theorem Reaches.accounted (reached : Reaches boot maxCpus config state) :
    BlocksAccounted boot state := by
  obtain ⟨-, clean, tags, same, owned⟩ := reached.inv.1
  have zeropage := reached.zeropage disabled
  have outstanding : state.buddy.outstanding = clean.outstanding := by rw [same]; rfl
  have inCache (p : Nat) : Somewhere state.cached p -> ∃ bucket, p ∈ state.buckets.stack bucket := by
    rintro ⟨place, member⟩
    rw [State.cached, zeropage] at member
    cases place with
    | bucket bucket => exact ⟨bucket, member⟩
    | dirty | clean => cases member
  have home (p : Nat) (order : Nat) (member : (p, order) ∈ clean.outstanding) :
      0 < state.refs p ∨ ∃ bucket, p ∈ state.buckets.stack bucket := by
    rcases (owned.each p).homes.1 ⟨order, member⟩ with held | kept | moving
    · exact Or.inl held
    · exact Or.inr (inCache p kept)
    · cases moving
  have page (p : Nat) (member : (p, 2) ∈ clean.outstanding) :
      (state.page p).netBuf = true ∧ (state.page p).count = ((max 1 (state.refs p) : Nat) : Int) := by
    rw [State.page, same, owned.netbuf_page member]
    exact ⟨rfl, rfl⟩
  have idle {bucket p : Nat} (member : p ∈ state.buckets.stack bucket) : state.refs p = 0 :=
    (owned.each p).idle (.inl ⟨.bucket bucket, member⟩)
  have tiling := owned.tagged.inv.mem.areas.tiling
  have listed : state.buddy.listed = clean.listed := by rw [same]; rfl
  have held : state.buddy.held = clean.held := by rw [same]; rfl
  refine ⟨fun bucket => owned.exclusive.nodup (.bucket bucket), ?_, fun _ _ => idle, ?_, ?_, ?_, ?_, ?_, ?_⟩
  · intro bucket other p here there
    cases owned.exclusive.single (show p ∈ state.cached (.bucket bucket) from here)
      (show p ∈ state.cached (.bucket other) from there)
    rfl
  · intro bucket p member
    have block := owned.buckets bucket p member
    obtain ⟨flag, count⟩ := page p block
    rw [idle member] at count
    exact ⟨outstanding ▸ block, flag, count⟩
  · intro p used
    rw [outstanding]
    exact (owned.each p).homes.2 (Or.inl used)
  · intro p member
    rw [outstanding] at member
    refine (home p 2 member).imp_left fun used => ⟨used, ?_⟩
    rw [(page p member).2, max_eq_right used]
  · intro p order member
    rw [outstanding] at member
    rcases owned.kinds p order member with ⟨big, -⟩ | ⟨rfl, -, few⟩
    · exact Or.inl big
    refine Or.inr ⟨rfl, ?_⟩
    rcases home p 0 member with used | ⟨bucket, cached⟩
    · omega
    -- a cached block has order 2 and the mark of one
    have big := owned.kinds p 2 (owned.buckets bucket p cached)
    have small := owned.kinds p 0 member
    simp_all
  · rw [listed, held]
    exact tiling.apart
  · rw [listed, held]
    exact tiling.covers

end

theorem netbuf_cache_accounted (boot : Boot) (maxCpus : Nat) (config : Config) (disabled : config.zeropageCache = false)
    (state : State) (reached : Reaches boot maxCpus config state) :
    BucketsPlaced maxCpus state.buckets ∧ BlocksAccounted boot state ∧
      ∀ event, Allowed maxCpus state event ∧ Countable state event -> (step config state event).isSome := by
  obtain ⟨⟨shelved, -⟩, progress⟩ := reached.inv
  refine ⟨⟨fun bucket => (shelved.everywhere bucket).symm, shelved.exclusive.nodup, ?_, shelved.empties,
    shelved.fulls⟩, reached.accounted disabled, progress⟩
  exact fun _ _ _ => shelved.exclusive.single

def fourPages : Boot where
  phyMemSize := 0x8000
  maxMapNr := 8
  available := [address 4, address 5, address 6, address 7]
  visited := [address 4, address 5, address 6, address 7]
  limit := by decide
  backed := by decide
  below := by decide
  once := by decide

def fourPagesStart (mem : Mem) : State :=
  { buddy := ⟨mem, []⟩, buckets := initPercpuPageCache 1, zeropage := ⟨[], []⟩, refs := fun _ => 0 }

def cacheOnly : Config := ⟨true, false⟩

def bufferTaken : Option State := fourPages.mem.bind fun mem => step cacheOnly (fourPagesStart mem)
  (.jallocPage 0 memNetbuf)

theorem bufferTaken_spec : ∃ state, bufferTaken = some state ∧ (state.page (address 4)).netBuf = true ∧
    (state.page (address 4)).count = 1 ∧ state.refs (address 4) = 1 ∧
    (freeCached state.buckets 0 (address 4)).1 = true ∧
    address 4 ∈ (freeCached state.buckets 0 (address 4)).2.stack 54 := by
  have outcome : (bufferTaken.any fun state => (state.page (address 4)).netBuf = true ∧
      (state.page (address 4)).count = 1 ∧ state.refs (address 4) = 1 ∧
      (freeCached state.buckets 0 (address 4)).1 = true ∧
      address 4 ∈ (freeCached state.buckets 0 (address 4)).2.stack 54) = true := by decide +kernel
  obtain ⟨state, taken, facts⟩ := holds_of_any outcome
  exact ⟨state, taken, facts⟩

theorem bufferTaken_reached {allowed : State -> Event -> Prop} (may : ∀ state, allowed state (.jallocPage 0 memNetbuf))
    {state : State} (taken : bufferTaken = some state) :
    Reachable (Start fourPages 1) (step cacheOnly) allowed state := by
  obtain ⟨mem, booted, moved⟩ := bind_iff.1 taken
  have start : Start fourPages 1 (fourPagesStart mem) := ⟨⟨booted, rfl⟩, rfl, rfl, fun _ => rfl⟩
  exact .next (.start start) (may _) moved

theorem netbuf_cache_accounted_taken : ∃ state, Reaches fourPages 1 cacheOnly state ∧ state.refs (address 4) = 1 ∧
    BucketsPlaced 1 state.buckets ∧ BlocksAccounted fourPages state := by
  obtain ⟨state, taken, -, -, once, -⟩ := bufferTaken_spec
  have reached : Reaches fourPages 1 cacheOnly state :=
    bufferTaken_reached (fun _ => ⟨Nat.zero_lt_one, trivial⟩) taken
  have kept := netbuf_cache_accounted fourPages 1 cacheOnly rfl state reached
  exact ⟨state, reached, once, kept.1, kept.2.1⟩

theorem duplicated {state : State} {p : Nat} (first : pageMask p = p) (flag : (state.page p).netBuf = true)
    (one : (state.page p).count = 1) (once : state.refs p = 1)
    (reached : Reachable (Start fourPages 1) (step cacheOnly) (Allowed 1) state) (n : Nat) :
    ∃ next, Reachable (Start fourPages 1) (step cacheOnly) (Allowed 1) next ∧ next.buckets = state.buckets ∧
      next.refs p = 1 + n ∧ (next.page p).netBuf = true ∧ (next.page p).count = toInt (1 + n) := by
  induction n with
  | zero => exact ⟨state, reached, rfl, once, flag, one⟩
  | succ n ih =>
    obtain ⟨middle, arrived, buckets, refs, flagged, count⟩ := ih
    have may : Allowed 1 middle (.jpageDup p) := fun _ => by
      rw [first, refs]
      omega
    refine ⟨(jpageDup middle p).2, .next arrived may rfl, ?_⟩
    rw [jpageDup, if_pos flagged]
    refine ⟨buckets, ?_, ?_, ?_⟩
    · simp only [State.referred, State.writePage, first, update_self, refs]
      omega
    · simpa [State.referred, State.writePage, State.page, Buddy.State.writePage, setPage] using flagged
    simp only [State.referred, State.writePage, State.page, Buddy.State.writePage, setPage, update_self]
    rw [show (middle.buddy.mem.page (mapNr p)).count = toInt (1 + n) from count]
    apply toInt_congr
    rw [Int.add_emod, toInt_emod, ← Int.add_emod]
    push_cast
    ring_nf

theorem freePage_cached {state : State} {cpu p : Nat} (first : pageMask p = p) (flag : (state.page p).netBuf = true)
    (one : (state.page p).count ≤ 1) {after : Buckets} (cached : freeCached state.buckets cpu p = (true, after)) :
    freePage cacheOnly cpu state p = some { state.dropped p with buckets := after } := by
  have dropped : freeCached (state.dropped p).buckets cpu p = (true, after) := cached
  rw [freePage, first, if_neg (by omega), if_pos ⟨rfl, flag⟩, dropped]

theorem overcounted_block_cached : ∃ state, Reachable (Start fourPages 1) (step cacheOnly) (Allowed 1) state ∧
    address 4 ∈ state.buckets.stack 54 ∧ state.refs (address 4) = 2 ^ 31 - 1 := by
  obtain ⟨state, taken, flag, one, once, cached, listed⟩ := bufferTaken_spec
  have first : pageMask (address 4) = address 4 := by decide
  obtain ⟨middle, reached, buckets, refs, flagged, count⟩ := duplicated first flag one once
    (bufferTaken_reached (fun _ => Nat.zero_lt_one) taken) (2 ^ 31 - 1)
  have negative : (middle.page (address 4)).count ≤ 1 := by
    rw [count]
    decide
  have may : Allowed 1 middle (.jfreePage 0 (address 4)) := ⟨Nat.zero_lt_one, by rw [first, refs]; omega⟩
  have freed := freePage_cached first flagged negative
    (Prod.ext (by rw [← cached, ← buckets]) rfl : freeCached middle.buckets 0 (address 4) = (true, _))
  have moved : step cacheOnly middle (.jfreePage 0 (address 4)) =
      some { middle.dropped (address 4) with buckets := (freeCached middle.buckets 0 (address 4)).2 } := by
    rw [step, jfreePage, bulkFreePages, foldlM_cons, freed]
    rfl
  refine ⟨_, .next reached may moved, ?_, ?_⟩
  · dsimp only
    rw [buckets]
    exact listed
  · simp only [State.dropped, update_self, refs]
    omega

def Suited (state : State) (p flags : Nat) : Prop :=
  Handed state p (isSet flags memNetbuf)

-- The zero page cache is off, or a bucket answers, or the top of the list is of the kind asked for.
def KindAtHand (config : Config) (state : State) (cpu flags : Nat) : Prop :=
  (config.percpuPagecache = true ∧ isSet flags memNetbuf = true ∧ isSet flags memClear = false ∧
    Stocked state.buckets cpu) ∨ (config.zeropageCache = true -> Sorted state flags)

theorem jalloc_suited_iff (boot : Boot) (maxCpus : Nat) (config : Config) (state : State)
    (reached : Reaches boot maxCpus config state) (cpu flags : Nat) :
    ∃ p next, jallocPage config state cpu flags = some (p, next) ∧
      (p ≠ 0 -> (Suited next p flags ↔ KindAtHand config state cpu flags)) := by
  obtain ⟨p, next, taken, -, handed⟩ := jallocPage_spec config reached.inv.1 cpu flags
  refine ⟨p, next, taken, fun nonzero => ?_⟩
  obtain ⟨kind, block, sorted⟩ := handed nonzero
  rw [KindAtHand, ← sorted]
  constructor
  · exact fun suited => block.flag.symm.trans suited.flag
  · rintro rfl
    exact block

def bothCaches : Config := ⟨true, true⟩

-- A page freed into the dirty list comes back for either kind of request.
theorem page_listed : ∃ state, Reaches fourPages 1 bothCaches state ∧
    state.zeropage.dirtypagesList = [address 7] ∧ (state.page (address 7)).netBuf = false ∧
    (jallocPage bothCaches state 0 0).map Prod.fst = some (address 7) ∧
    (jallocPage bothCaches state 0 memNetbuf).map (fun result => (result.1, (result.2.page (address 7)).netBuf)) =
      some (address 7, false) := by
  have outcome : (fourPages.mem.bind fun mem => (step bothCaches (fourPagesStart mem) (.jallocPage 0 0)).bind fun taken =>
      if 0 < taken.refs (pageMask (address 7)) then step bothCaches taken (.jfreePage 0 (address 7)) else none).any
      (fun state => state.zeropage.dirtypagesList = [address 7] ∧ (state.page (address 7)).netBuf = false ∧
        (jallocPage bothCaches state 0 0).map Prod.fst = some (address 7) ∧
        (jallocPage bothCaches state 0 memNetbuf).map (fun result => (result.1, (result.2.page (address 7)).netBuf)) =
          some (address 7, false)) = true := by decide +kernel
  obtain ⟨state, ran, facts⟩ := holds_of_any outcome
  obtain ⟨mem, booted, ran⟩ := bind_iff.1 ran
  obtain ⟨taken, first, ran⟩ := bind_iff.1 ran
  split_ifs at ran with held
  have start : Reaches fourPages 1 bothCaches (fourPagesStart mem) :=
    .start ⟨⟨booted, rfl⟩, rfl, rfl, fun _ => rfl⟩
  have mayTake : Allowed 1 (fourPagesStart mem) (.jallocPage 0 0) := Nat.zero_lt_one
  have mayFree : Allowed 1 taken (.jfreePage 0 (address 7)) := ⟨Nat.zero_lt_one, held⟩
  exact ⟨state, .next (.next start ⟨mayTake, trivial⟩ first) ⟨mayFree, trivial⟩ ran, facts⟩

theorem jalloc_suited_listed : ∃ state next, Reaches fourPages 1 bothCaches state ∧
    state.zeropage.dirtypagesList = [address 7] ∧
    jallocPage bothCaches state 0 0 = some (address 7, next) ∧ Suited next (address 7) 0 := by
  obtain ⟨state, reached, listed, flag, got, -⟩ := page_listed
  obtain ⟨p, next, taken, suited⟩ := jalloc_suited_iff fourPages 1 bothCaches state reached 0 0
  rw [taken] at got
  obtain rfl : p = address 7 := some.inj got
  have unset : isSet 0 memClear = false ∧ isSet 0 memNetbuf = false := by decide
  refine ⟨state, next, reached, listed, taken, (suited (by decide)).2 (.inr fun _ q first _ => ?_)⟩
  rw [zeropageList, listed, unset.1, if_neg (by simp), head?_cons, Option.mem_some_iff] at first
  rw [← first, flag, unset.2]

theorem page_for_netbuf : ∃ state, Reaches fourPages 1 bothCaches state ∧ ∃ next,
    jallocPage bothCaches state 0 memNetbuf = some (address 7, next) ∧ ¬ Suited next (address 7) memNetbuf := by
  obtain ⟨state, reached, -, -, -, third⟩ := page_listed
  obtain ⟨⟨p, next⟩, taken, result⟩ := map_eq_some_iff.1 third
  obtain ⟨rfl, flag⟩ := Prod.mk.inj result
  refine ⟨state, reached, next, taken, fun suited => ?_⟩
  have flagged := suited.flag
  rw [flag] at flagged
  exact absurd flagged (by decide)

end JinyKernel.Netbuf
