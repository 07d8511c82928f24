import JinyKernel.Netbuf.Ownership

namespace JinyKernel.Netbuf

open Buddy Filing Function List

structure Inv (region : Nat -> Prop) (size : Nat) (state : State) (transit : Option Nat) : Prop where
  shelved : Shelved size state.buckets
  owned : ∃ clean tags, state.buddy = clean.retag tags ∧ Owned region clean tags state.cached state.refs transit

structure Handed (state : State) (p : Nat) (big : Bool) : Prop where
  once : state.refs p = 1
  flag : (state.page p).netBuf = big
  block : (p, if big then 2 else 0) ∈ state.buddy.outstanding

section

variable {stack : Nat -> List Nat} {zeropage after : ZeropageCache} {p flags : Nat}

theorem cachedIn_stack (bucket : Nat) (rest : List Nat) :
    cachedIn (update stack bucket rest) zeropage =
      update (cachedIn stack zeropage) (.bucket bucket) rest := by
  funext place
  cases place with
  | bucket b =>
    by_cases here : b = bucket
    · subst here
      simp [cachedIn]
    · simp [cachedIn, here]
  | dirty | clean => simp [cachedIn]

theorem cachedIn_dirty (rest : List Nat) :
    cachedIn stack { zeropage with dirtypagesList := rest } =
      update (cachedIn stack zeropage) .dirty (rest.filter (· ≠ 0)) := by
  funext place
  cases place <;> simp [cachedIn]

theorem cachedIn_clean (rest : List Nat) :
    cachedIn stack { zeropage with cleanpagesList := rest } =
      update (cachedIn stack zeropage) .clean (rest.filter (· ≠ 0)) := by
  funext place
  cases place <;> simp [cachedIn]

theorem pop_filter {cached : Place -> List Nat} {place : Place} {top : Nat} {rest : List Nat}
    (here : cached place = (top :: rest).filter (· ≠ 0)) :
    (top = 0 -> update cached place (rest.filter (· ≠ 0)) = cached) ∧
      (top ≠ 0 -> cached place = top :: rest.filter (· ≠ 0)) := by
  constructor
  · rintro rfl
    rw [← filter_cons_of_neg (a := 0) (by simp), ← here, update_eq_self]
  · intro nonzero
    rw [here, filter_cons_of_pos (by simpa using nonzero)]

theorem getFromZeropagecache_spec (stack : Nat -> List Nat) (got : getFromZeropagecache zeropage flags = (p, after)) :
    (p = 0 -> cachedIn stack after = cachedIn stack zeropage) ∧
      (p ≠ 0 -> ∃ place rest, cachedIn stack zeropage place = p :: rest ∧
        cachedIn stack after = update (cachedIn stack zeropage) place rest) := by
  rw [getFromZeropagecache] at got
  split at got
  next top rest _ clean =>
    obtain ⟨rfl, rfl⟩ := Prod.mk.inj got
    have listed : cachedIn stack zeropage .clean = (top :: rest).filter (· ≠ 0) := by rw [cachedIn, clean]
    have popped := pop_filter listed
    rw [cachedIn_clean]
    exact ⟨popped.1, fun nonzero => ⟨.clean, _, popped.2 nonzero, rfl⟩⟩
  next _ _ top rest dirty _ =>
    obtain ⟨rfl, rfl⟩ := Prod.mk.inj got
    have listed : cachedIn stack zeropage .dirty = (top :: rest).filter (· ≠ 0) := by rw [cachedIn, dirty]
    have popped := pop_filter listed
    rw [cachedIn_dirty]
    exact ⟨popped.1, fun nonzero => ⟨.dirty, _, popped.2 nonzero, rfl⟩⟩
  next =>
    cases got
    exact ⟨fun _ => rfl, fun nonzero => absurd rfl nonzero⟩

theorem insertIntoZeropagecache_spec (stack : Nat -> List Nat) {taken : Bool}
    (got : insertIntoZeropagecache zeropage p flags = (taken, after)) :
    (taken = false -> after = zeropage) ∧ (p = 0 -> cachedIn stack after = cachedIn stack zeropage) ∧
      (taken = true -> p ≠ 0 -> ∃ place, (∀ bucket, place ≠ .bucket bucket) ∧ cachedIn stack after =
        update (cachedIn stack zeropage) place (p :: cachedIn stack zeropage place)) := by
  have pushed (list : List Nat) (nonzero : p ≠ 0) : (p :: list).filter (· ≠ 0) = p :: list.filter (· ≠ 0) :=
    filter_cons_of_pos (by simpa using nonzero)
  rw [insertIntoZeropagecache] at got
  split at got
  next =>
    cases got
    rw [cachedIn_clean]
    refine ⟨by simp, ?_, fun _ nonzero => ⟨.clean, by simp, by rw [pushed _ nonzero]; rfl⟩⟩
    rintro rfl
    exact update_eq_self ..
  next =>
    split at got
    next =>
      cases got
      rw [cachedIn_dirty]
      refine ⟨by simp, ?_, fun _ nonzero => ⟨.dirty, by simp, by rw [pushed _ nonzero]; rfl⟩⟩
      rintro rfl
      exact update_eq_self ..
    next =>
      cases got
      exact ⟨fun _ => rfl, fun _ => rfl, by simp⟩

theorem insertIntoZeropagecache_room (room : zeropage.cleanpagesList.length < maxZerolistSize) :
    (insertIntoZeropagecache zeropage p memClear).1 = true := by
  have asked : isSet memClear memClear = true := by decide
  rw [insertIntoZeropagecache, if_pos ⟨asked, room⟩]

end

variable {region : Nat -> Prop} {size : Nat} {state : State} {p : Nat}

theorem Inv.handOut (inv : Inv region size state (some p)) :
    Inv region size (state.referred p) none ∧ Handed (state.referred p) p (state.page p).netBuf := by
  obtain ⟨clean, tags, same, owned⟩ := inv.owned
  have used := owned.use
  refine ⟨⟨inv.shelved, clean, tags, same, used⟩, ?_⟩
  obtain ⟨order, member⟩ := (owned.each p).homes.2 (Or.inr (Or.inr rfl))
  have page : state.page p = (clean.retag tags).mem.page (mapNr p) := by rw [State.page, same]
  have outstanding : state.buddy.outstanding = clean.outstanding := by rw [same]; rfl
  have unused := (owned.each p).idle (.inr rfl)
  refine ⟨by simp [State.referred, unused], rfl, ?_⟩
  change _ ∈ state.buddy.outstanding
  rw [outstanding, page]
  rcases owned.kinds p order member with ⟨rfl, -⟩ | ⟨rfl, -⟩
  · rw [owned.netbuf_page member]
    exact member
  · rw [owned.plain_page member, (owned.clean_page member).1]
    exact member

theorem Inv.dequeue (inv : Inv region size state none) {flags : Nat} {zeropage : ZeropageCache}
    (got : getFromZeropagecache state.zeropage flags = (p, zeropage)) :
    Inv region size { state with zeropage := zeropage } (if p = 0 then none else some p) := by
  obtain ⟨clean, tags, same, owned⟩ := inv.owned
  have spec := getFromZeropagecache_spec state.buckets.stack got
  refine ⟨inv.shelved, clean, tags, same, ?_⟩
  split_ifs with nothing
  · rwa [State.cached, spec.1 nothing]
  · obtain ⟨place, rest, listed, left⟩ := spec.2 nothing
    rw [State.cached, left]
    exact owned.pop listed

theorem allocFresh_spec (inv : Inv region size state none) (flags : Nat) :
    ∃ p next, allocFresh state flags = some (p, next) ∧ Inv region size next none ∧
      (p ≠ 0 -> Handed next p (isSet flags memNetbuf)) := by
  obtain ⟨clean, tags, same, owned⟩ := inv.owned
  obtain ⟨p, next, taken, after, outcome⟩ := owned.tagged.takePages flags (if isSet flags memNetbuf then 2 else 0)
  rcases outcome with ⟨rfl, kept⟩ | fresh
  · refine ⟨0, { state with buddy := next.retag tags }, ?_, ⟨inv.shelved, next, tags, rfl, owned.failed after kept⟩,
      fun nonzero => absurd rfl nonzero⟩
    simp [allocFresh, same, taken]
  have nonzero := fresh.nonzero
  cases big : isSet flags memNetbuf with
  | false =>
    rw [big] at fresh
    have moving := owned.freshPage after fresh
    have member : (p, 0) ∈ next.outstanding := by rw [fresh.outstanding]; exact mem_cons_self
    have reached : Inv region size { state with buddy := next.retag tags } (some p) :=
      ⟨inv.shelved, next, tags, rfl, moving⟩
    have plain : (State.page { state with buddy := next.retag tags } p).netBuf = false := by
      rw [State.page, moving.plain_page member, (moving.clean_page member).1]
    refine ⟨p, _, ?_, reached.handOut.1, fun _ => plain ▸ reached.handOut.2⟩
    simp only [allocFresh, same, big, Bool.false_eq_true, if_false] at taken ⊢
    rw [taken]
    simp [nonzero]
  | true =>
    rw [big] at fresh
    have moving := owned.fresh after fresh (Or.inl ⟨rfl, rfl⟩)
    have member : (p, 2) ∈ next.outstanding := by rw [fresh.outstanding]; exact mem_cons_self
    have marked := State.mark_retag (moving.clean_page member).2 fresh.unmarked
    have reached : Inv region size
        { state with buddy := next.retag (update tags (mapNr p) (some 1)) } (some p) :=
      ⟨inv.shelved, next, _, rfl, moving⟩
    have flagged : (State.page { state with buddy := next.retag (update tags (mapNr p) (some 1)) } p).netBuf =
        true := by
      rw [State.page, moving.netbuf_page member, Page.retag]
    refine ⟨p, _, ?_, reached.handOut.1, fun _ => flagged ▸ reached.handOut.2⟩
    simp only [allocFresh, same, big, if_true] at taken ⊢
    rw [taken]
    simp only [Run.some_bind, nonzero, if_false]
    exact congrArg (fun buddy => some (p, State.referred { state with buddy := buddy } p)) marked

variable (config : Config)

-- The list that `get_from_zeropagecache` takes from.
def zeropageList (zeropage : ZeropageCache) (flags : Nat) : List Nat :=
  if isSet flags memClear ∧ zeropage.cleanpagesList ≠ [] then zeropage.cleanpagesList else zeropage.dirtypagesList

def Sorted (state : State) (flags : Nat) : Prop :=
  ∀ p ∈ (zeropageList state.zeropage flags).head?, p ≠ 0 -> (state.page p).netBuf = isSet flags memNetbuf

-- The CPU's bucket has a block, or the one it is exchanged for.
def Stocked (buckets : Buckets) (cpu : Nat) : Prop :=
  (buckets.pageCache cpu).inuse = false ∧ ∃ bucket ∈ (buckets.pageCache cpu).bucket,
    buckets.stack bucket ≠ [] ∨ ∃ full ∈ buckets.fullBuckets.head?, buckets.stack full ≠ []

theorem getFromZeropagecache_head (zeropage : ZeropageCache) (flags : Nat) :
    (getFromZeropagecache zeropage flags).1 = (zeropageList zeropage flags).head?.getD 0 := by
  obtain ⟨dirty, clean⟩ := zeropage
  rw [getFromZeropagecache, zeropageList]
  cases isSet flags memClear <;> cases clean <;> cases dirty <;> rfl

theorem allocCached_iff (buckets : Buckets) (cpu : Nat) : (allocCached buckets cpu).1 ≠ none ↔ Stocked buckets cpu := by
  rw [allocCached, serving, Stocked]
  cases (buckets.pageCache cpu).inuse with
  | true => simp
  | false =>
    cases (buckets.pageCache cpu).bucket with
    | none => simp
    | some bucket =>
      by_cases empty : buckets.stack bucket = []
      · cases fulls : buckets.fullBuckets with
        | nil => simp [empty, getBucket, fulls, Buckets.setCpu]
        | cons full rest =>
          cases stack : buckets.stack full <;> simp [empty, getBucket, fulls, Buckets.setCpu, stack]
      · cases stack : buckets.stack bucket with
        | nil => exact absurd stack empty
        | cons => simp [stack]

theorem allocPast_spec (inv : Inv region size state none) (flags : Nat) :
    ∃ p next, allocPast config state flags = some (p, next) ∧ Inv region size next none ∧
      (p ≠ 0 -> ∃ kind, Handed next p kind ∧
        (kind = isSet flags memNetbuf ↔ (config.zeropageCache = true -> Sorted state flags))) := by
  rw [allocPast]
  cases enabled : config.zeropageCache with
  | false =>
    obtain ⟨p, next, got, after, handed⟩ := allocFresh_spec inv flags
    exact ⟨p, next, got, after, fun nonzero => ⟨_, handed nonzero, by simp⟩⟩
  | true =>
    have top := getFromZeropagecache_head state.zeropage flags
    cases got : getFromZeropagecache state.zeropage flags with
    | mk p zeropage =>
      have reached := inv.dequeue got
      rw [got] at top
      by_cases nothing : p = 0
      · rw [if_pos nothing] at reached
        have sorted : Sorted state flags := by
          intro q first nonzero
          rw [first, nothing] at top
          exact absurd top.symm nonzero
        obtain ⟨q, next, fresh, after, handed⟩ := allocFresh_spec reached flags
        simp only [nothing, ne_eq, not_true_eq_false, if_false, if_true]
        exact ⟨q, next, fresh, after, fun nonzero => ⟨_, handed nonzero, by simp [sorted]⟩⟩
      · rw [if_neg nothing] at reached
        have first : (zeropageList state.zeropage flags).head? = some p := by
          cases found : (zeropageList state.zeropage flags).head? with
          | none =>
            rw [found] at top
            exact absurd top nothing
          | some q =>
            rw [found] at top
            exact congrArg some top.symm
        simp only [ne_eq, nothing, not_false_eq_true, if_true]
        refine ⟨_, _, rfl, reached.handOut.1, fun _ => ⟨_, reached.handOut.2, ?_⟩⟩
        simp only [Sorted, first, Option.mem_some_iff, forall_eq', true_imp_iff, ne_eq, nothing, not_false_eq_true]
        rfl

theorem jallocPage_spec (inv : Inv region size state none) (cpu flags : Nat) :
    ∃ p next, jallocPage config state cpu flags = some (p, next) ∧ Inv region size next none ∧
      (p ≠ 0 -> ∃ kind, Handed next p kind ∧ (kind = isSet flags memNetbuf ↔
        (config.percpuPagecache = true ∧ isSet flags memNetbuf = true ∧ isSet flags memClear = false ∧
          Stocked state.buckets cpu) ∨ (config.zeropageCache = true -> Sorted state flags))) := by
  rw [jallocPage, ← allocCached_iff]
  by_cases asked : ¬ isSet flags memClear = true ∧ config.percpuPagecache = true ∧ isSet flags memNetbuf = true
  · rw [if_pos asked]
    obtain ⟨clean, tags, same, owned⟩ := inv.owned
    rcases served : allocCached state.buckets cpu with ⟨_ | p, after⟩
    · obtain ⟨shelved, kept, -⟩ := allocCached_spec inv.shelved served
      have reached : Inv region size { state with buckets := after } none := by
        refine ⟨shelved, clean, tags, same, ?_⟩
        rw [State.cached, kept rfl]
        exact owned
      simp only [ne_eq, not_true_eq_false, and_false, false_or]
      exact allocPast_spec config reached flags
    obtain ⟨shelved, -, hit⟩ := allocCached_spec inv.shelved served
    obtain ⟨bucket, rest, listed, left⟩ := hit p rfl
    have here : state.cached (.bucket bucket) = p :: rest := listed
    have reached : Inv region size { state with buckets := after } (some p) := by
      refine ⟨shelved, clean, tags, same, ?_⟩
      rw [State.cached, left, cachedIn_stack]
      exact owned.pop here
    have member := owned.buckets bucket p (by rw [here]; exact mem_cons_self)
    have flagged : (State.page { state with buckets := after } p).netBuf = isSet flags memNetbuf := by
      change (state.buddy.mem.page (mapNr p)).netBuf = isSet flags memNetbuf
      rw [same, owned.netbuf_page member, Page.retag, asked.2.2]
    refine ⟨p, _, rfl, reached.handOut.1, fun _ => ⟨_, reached.handOut.2, fun _ => .inl ?_, fun _ => flagged⟩⟩
    exact ⟨asked.2.1, asked.2.2, Bool.eq_false_iff.2 asked.1, by simp⟩
  · rw [if_neg asked]
    obtain ⟨p, next, got, after, handed⟩ := allocPast_spec config inv flags
    refine ⟨p, next, got, after, fun nonzero => ?_⟩
    obtain ⟨kind, block, sorted⟩ := handed nonzero
    refine ⟨kind, block, sorted.trans (or_iff_right fun cached => asked ?_).symm⟩
    exact ⟨by simp [cached.2.2.1], cached.1, cached.2.1⟩

theorem freeFresh_spec (inv : Inv region size state (some p)) :
    ∃ next, freeFresh state p = some next ∧ Inv region size next none ∧ next.refs = state.refs := by
  obtain ⟨clean, tags, same, owned⟩ := inv.owned
  obtain ⟨order, member⟩ := (owned.each p).homes.2 (Or.inr (Or.inr rfl))
  obtain ⟨after, given, kept⟩ := owned.give member
  refine ⟨{ state with buddy := after.retag (update tags (mapNr p) none) }, ?_,
    ⟨inv.shelved, after, _, rfl, kept⟩, rfl⟩
  have blank := owned.clean_page member
  have page : state.page p = (clean.retag tags).mem.page (mapNr p) := by rw [State.page, same]
  rcases owned.kinds p order member with ⟨rfl, tag⟩ | ⟨rfl, tag, -⟩
  · have one : tags (mapNr p) = some 1 := by
      rw [tag, (owned.each p).idle (.inr rfl)]
      rfl
    have flagged : (state.page p).netBuf = true := by rw [page, owned.netbuf_page member, Page.retag]
    have unmarked : (state.writePage p { state.page p with netBuf := false }).buddy =
        clean.retag (update tags (mapNr p) none) := by
      rw [State.writePage, page, same]
      exact State.unmark_retag blank.1 blank.2 one
    simp only [freeFresh, flagged, if_true, unmarked, given]
    rfl
  · have plain : (state.page p).netBuf = false := by rw [page, owned.plain_page member, blank.1]
    have unmarked : update tags (mapNr p) none = tags := by rw [← tag, update_eq_self]
    rw [unmarked] at given ⊢
    simp only [freeFresh, plain, Bool.false_eq_true, if_false, same, given]
    rfl

theorem Owned.nonzero {clean : Buddy.State} {tags : Tags} {cached : Place -> List Nat} {refs : Nat -> Nat}
    {transit : Option Nat} {order : Nat} (owned : Owned region clean tags cached refs transit)
    (member : (p, order) ∈ clean.outstanding) : p ≠ 0 := by
  have direct := owned.tagged.inv.direct _ member
  rw [show p = address (mapNr p) from direct]
  exact address_ne_zero (owned.tagged.inv.below member)

theorem freePast_spec (inv : Inv region size state (some p)) :
    ∃ next, freePast config state p = some next ∧ Inv region size next none ∧ next.refs = state.refs := by
  rw [freePast]
  cases enabled : config.zeropageCache with
  | false =>
    exact freeFresh_spec inv
  | true =>
    simp only [if_true]
    cases got : insertIntoZeropagecache state.zeropage p 0 with
    | mk taken zeropage =>
      have spec := insertIntoZeropagecache_spec state.buckets.stack got
      cases taken with
      | false =>
        simp only [Bool.false_eq_true, if_false, spec.1 rfl]
        exact freeFresh_spec inv
      | true =>
        obtain ⟨clean, tags, same, owned⟩ := inv.owned
        obtain ⟨order, member⟩ := (owned.each p).homes.2 (Or.inr (Or.inr rfl))
        obtain ⟨place, noBucket, pushed⟩ := spec.2.2 rfl (owned.nonzero member)
        refine ⟨_, if_pos rfl, ⟨inv.shelved, clean, tags, same, ?_⟩, rfl⟩
        rw [State.cached, pushed]
        exact owned.push place fun bucket here => absurd here (noBucket bucket)

theorem freePage_spec (inv : Inv region size state none) (cpu : Nat) {buf : Nat}
    (held : 0 < state.refs (pageMask buf)) :
    ∃ next, freePage config cpu state buf = some next ∧ Inv region size next none ∧
      next.refs = update state.refs (pageMask buf) (state.refs (pageMask buf) - 1) := by
  rw [freePage]
  generalize pageMask buf = p at held ⊢
  obtain ⟨clean, tags, same, owned⟩ := inv.owned
  obtain ⟨order, member⟩ := (owned.each p).homes.2 (Or.inl held)
  have page : state.page p = (clean.retag tags).mem.page (mapNr p) := by rw [State.page, same]
  have blank := owned.clean_page member
  have small := (owned.each p).small
  have kind := owned.kinds p order member
  split
  next shared =>
    rcases kind with ⟨rfl, tag⟩ | ⟨rfl, -, -⟩
    · have count : (state.page p).count = ((max 1 (state.refs p) : Nat) : Int) := by
        rw [page, owned.netbuf_page member, Page.retag]
      have fewer : toInt ((state.page p).count - 1) = ((state.refs p - 1 : Nat) : Int) := by
        rw [toInt_eq (by omega) (by omega)]
        omega
      refine ⟨_, rfl, ⟨inv.shelved, clean, _, ?_, owned.recount member held (by omega) (by omega)⟩, rfl⟩
      rw [fewer, page]
      change state.buddy.writePage (mapNr p) _ = _
      rw [same]
      exact State.recount_retag tag _
    · -- a page of order 0 carries no flag
      rw [page, owned.plain_page member, blank.1] at shared
      exact absurd shared.1 (by simp)
  next shared =>
    have one : state.refs p = 1 := by
      rcases kind with ⟨rfl, -⟩ | ⟨rfl, -, few⟩
      · rw [page, owned.netbuf_page member, Page.retag] at shared
        simp only [true_and, gt_iff_lt, not_lt] at shared
        omega
      · omega
    have reached : Inv region size (state.dropped p) (some p) :=
      ⟨inv.shelved, clean, tags, same, owned.release one⟩
    split_ifs with cached
    · have big : (p, 2) ∈ clean.outstanding := by
        rcases kind with ⟨rfl, -⟩ | ⟨rfl, -, -⟩
        · exact member
        · rw [page, owned.plain_page member, blank.1] at cached
          exact absurd cached.2 (by simp)
      cases got : freeCached (state.dropped p).buckets cpu p with
      | mk taken after =>
        obtain ⟨shelved, pushed, kept⟩ := freeCached_spec reached.shelved got
        cases taken with
        | true =>
          obtain ⟨bucket, stack⟩ := pushed rfl
          refine ⟨_, rfl, ⟨shelved, clean, tags, same, ?_⟩, rfl⟩
          rw [State.cached, stack, cachedIn_stack]
          exact (owned.release one).push (.bucket bucket) fun _ _ => big
        | false =>
          have still : Inv region size { state.dropped p with buckets := after } (some p) := by
            refine ⟨shelved, clean, tags, same, ?_⟩
            rw [State.cached, kept rfl]
            exact owned.release one
          exact freePast_spec config still
    · exact freePast_spec config reached

theorem bulkFreePages_spec (inv : Inv region size state none) (cpu : Nat) (mbufs : List Nat)
    (held : ∀ p, (mbufs.map pageMask).count p ≤ state.refs p) :
    ∃ next, bulkFreePages config state cpu mbufs = some next ∧ Inv region size next none := by
  induction mbufs generalizing state with
  | nil => exact ⟨state, rfl, inv⟩
  | cons buf rest ih =>
    simp only [map_cons, count_cons, beq_iff_eq] at held
    have first := held (pageMask buf)
    rw [if_pos rfl] at first
    have used : 0 < state.refs (pageMask buf) := by omega
    obtain ⟨middle, freed, after, refs⟩ := freePage_spec config inv cpu used
    -- the rest of the list finds one reference less to this block
    have rest_held (p : Nat) : (rest.map pageMask).count p ≤ middle.refs p := by
      have before := held p
      rw [refs]
      by_cases here : p = pageMask buf
      · subst here
        rw [update_self]
        omega
      · rw [update_of_ne here]
        omega
    obtain ⟨next, ran, kept⟩ := ih after rest_held
    refine ⟨next, ?_, kept⟩
    rw [bulkFreePages, foldlM_cons, freed]
    exact ran

theorem mapNr_pageMask {addr frame : Nat} (below : frame < frameLimit) (first : pageMask addr = address frame) :
    mapNr addr = frame := by
  rw [address_eq below] at first
  simp only [pageMask] at first
  simp only [frameLimit, pageSize, kaddrspaceStart] at *
  rw [mapNr_direct (by simp only [kaddrspaceStart]; omega) (by simp only [kaddrspaceStart, frameLimit, pageSize]; omega)]
  simp only [pageSize, kaddrspaceStart]
  omega

theorem jpageDup_spec (inv : Inv region size state none) {addr : Nat}
    (held : (state.page addr).netBuf = true ->
      0 < state.refs (pageMask addr) ∧ state.refs (pageMask addr) + 1 < 2 ^ 31) :
    Inv region size (jpageDup state addr).2 none := by
  rw [jpageDup]
  split_ifs with flagged
  · obtain ⟨used, few⟩ := held flagged
    obtain ⟨clean, tags, same, owned⟩ := inv.owned
    obtain ⟨order, member⟩ := (owned.each _).homes.2 (Or.inl used)
    have frame := mapNr_pageMask (owned.tagged.inv.below member) (owned.tagged.inv.direct _ member)
    have page : state.page addr = (clean.retag tags).mem.page (mapNr (pageMask addr)) := by
      rw [State.page, same, frame]
    rcases owned.kinds _ order member with ⟨rfl, tag⟩ | ⟨rfl, -, -⟩
    · have count : (state.page addr).count = ((max 1 (state.refs (pageMask addr)) : Nat) : Int) := by
        rw [page, owned.netbuf_page member, Page.retag]
      have more : toInt ((state.page addr).count + 1) = ((state.refs (pageMask addr) + 1 : Nat) : Int) := by
        rw [toInt_eq (by omega) (by omega)]
        omega
      refine ⟨inv.shelved, clean, _, ?_, owned.recount member used (by omega) few⟩
      rw [more, page]
      change state.buddy.writePage (mapNr addr) _ = _
      rw [same, frame]
      exact State.recount_retag tag _
    · rw [page, owned.plain_page member, (owned.clean_page member).1] at flagged
      exact absurd flagged (by simp)
  · exact inv

theorem getFromZeropagecache_clean {zeropage after : ZeropageCache}
    (got : getFromZeropagecache zeropage 0 = (p, after)) : after.cleanpagesList = zeropage.cleanpagesList := by
  have unasked : isSet 0 memClear = false := by decide
  rw [getFromZeropagecache] at got
  split at got
  next asked _ => cases asked
  next =>
    cases got
    rfl
  cases got
  rfl

theorem Inv.clear (inv : Inv region size state (some p))
    (room : state.zeropage.cleanpagesList.length < maxZerolistSize) :
    Inv region size { state with zeropage := (insertIntoZeropagecache state.zeropage p memClear).2 } none := by
  obtain ⟨clean, tags, same, owned⟩ := inv.owned
  obtain ⟨order, member⟩ := (owned.each p).homes.2 (Or.inr (Or.inr rfl))
  have taken := insertIntoZeropagecache_room (p := p) room
  have spec := insertIntoZeropagecache_spec state.buckets.stack
    (Prod.ext taken rfl : insertIntoZeropagecache state.zeropage p memClear = (true, _))
  obtain ⟨place, noBucket, pushed⟩ := spec.2.2 rfl (owned.nonzero member)
  refine ⟨inv.shelved, clean, tags, same, ?_⟩
  change Owned region clean tags (cachedIn state.buckets.stack _) state.refs none
  rw [pushed]
  exact owned.push place fun bucket here => absurd here (noBucket bucket)

theorem housekeepLoop_spec (inv : Inv region size state none) (left : Nat) :
    ∃ next, housekeepLoop state left = some next ∧ Inv region size next none := by
  induction left generalizing state with
  | zero => exact ⟨state, rfl, inv⟩
  | succ left ih =>
    rw [housekeepLoop]
    split
    next room =>
      cases got : getFromZeropagecache state.zeropage 0 with
      | mk p zeropage =>
        have reached := inv.dequeue got
        have roomy : zeropage.cleanpagesList.length < maxZerolistSize := by
          rw [getFromZeropagecache_clean got]
          exact room
        by_cases nothing : p = 0
        · rw [if_pos nothing] at reached
          simp only [nothing, ne_eq, not_true_eq_false, if_false]
          -- no dirty page: a fresh one, or the 0 of a failed call
          obtain ⟨clean, tags, same, owned⟩ := reached.owned
          obtain ⟨q, grown, taken, after, outcome⟩ := owned.tagged.takePages memClear 0
          rw [show state.buddy = _ from same, taken]
          rcases outcome with ⟨rfl, kept⟩ | fresh
          · have inserted := insertIntoZeropagecache_spec state.buckets.stack
              (Prod.mk.eta (p := insertIntoZeropagecache zeropage 0 memClear)).symm
            refine ih ⟨inv.shelved, _, tags, rfl, ?_⟩
            change Owned region _ tags (cachedIn state.buckets.stack _) state.refs none
            rw [inserted.2.1 rfl]
            exact owned.failed after kept
          · have moving : Inv region size { state with buddy := grown.retag tags, zeropage := zeropage } (some q) :=
              ⟨inv.shelved, _, tags, rfl, owned.freshPage after fresh⟩
            exact ih (moving.clear roomy)
        · rw [if_neg nothing] at reached
          simp only [ne_eq, nothing, not_false_eq_true, if_true]
          exact ih (reached.clear roomy)
    next => exact ⟨state, rfl, inv⟩

theorem housekeepZeropageCache_spec (inv : Inv region size state none) :
    ∃ next, housekeepZeropageCache config state = some next ∧ Inv region size next none := by
  rw [housekeepZeropageCache]
  split
  · exact housekeepLoop_spec inv 100
  · exact ⟨state, rfl, inv⟩

end JinyKernel.Netbuf
