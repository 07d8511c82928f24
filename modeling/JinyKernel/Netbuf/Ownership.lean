import JinyKernel.Netbuf.Buckets

namespace JinyKernel.Netbuf

open Buddy Filing Function List Option

inductive Place where
  | bucket (bucket : Nat)
  | dirty
  | clean
  deriving DecidableEq

def cachedIn (stack : Nat -> List Nat) (zeropage : ZeropageCache) : Place -> List Nat
  | .bucket bucket => stack bucket
  | .dirty => zeropage.dirtypagesList.filter (· ≠ 0)
  | .clean => zeropage.cleanpagesList.filter (· ≠ 0)

def State.cached (state : State) : Place -> List Nat := cachedIn state.buckets.stack state.zeropage

structure Kept (out cached moving : Prop) (refs : Nat) : Prop where
  homes : out ↔ 0 < refs ∨ cached ∨ moving
  idle : cached ∨ moving -> refs = 0
  apart : moving -> ¬ cached
  small : refs < 2 ^ 31

-- The tag of a block of order 2 counts its references; `transit` is a block on its way.
structure Owned (region : Nat -> Prop) (clean : Buddy.State) (tags : Tags) (cached : Place -> List Nat)
    (refs : Nat -> Nat) (transit : Option Nat) : Prop where
  tagged : Tagged region clean tags
  kinds : ∀ p order, (p, order) ∈ clean.outstanding ->
    (order = 2 ∧ tags (mapNr p) = some ((max 1 (refs p) : Nat) : Int)) ∨ (order = 0 ∧ tags (mapNr p) = none ∧ refs p ≤ 1)
  exclusive : Exclusive cached
  each : ∀ p, Kept (∃ order, (p, order) ∈ clean.outstanding) (Somewhere cached p) (transit = some p) (refs p)
  buckets : ∀ bucket p, p ∈ cached (.bucket bucket) -> (p, 2) ∈ clean.outstanding

variable {region : Nat -> Prop} {clean next : Buddy.State} {tags : Tags} {cached : Place -> List Nat}
  {refs : Nat -> Nat} {transit : Option Nat} {p order : Nat} {place : Place} {rest : List Nat}

theorem Owned.frame_inj (owned : Owned region clean tags cached refs transit) {q order' : Nat}
    (here : (p, order) ∈ clean.outstanding) (there : (q, order') ∈ clean.outstanding) (same : mapNr q = mapNr p) :
    q = p := by
  have direct := owned.tagged.inv.direct
  calc q = address (mapNr q) := direct _ there
    _ = address (mapNr p) := by rw [same]
    _ = p := (direct _ here).symm

theorem Owned.pop (owned : Owned region clean tags cached refs none) (here : cached place = p :: rest) :
    Owned region clean tags (update cached place rest) refs (some p) where
  __ := owned
  exclusive := owned.exclusive.pop here
  each q := by
    rw [owned.exclusive.somewhere_pop here]
    by_cases same : q = p
    · subst same
      have there : Somewhere cached q := ⟨place, by rw [here]; exact mem_cons_self⟩
      obtain ⟨homes, idle, -, small⟩ := owned.each q
      exact ⟨by simpa [there] using homes, fun _ => idle (.inl there), by simp, small⟩
    · simpa [same, Ne.symm same] using owned.each q
  buckets bucket q member := owned.buckets bucket q ((owned.exclusive.mem_pop here).1 member).2

theorem Owned.push (owned : Owned region clean tags cached refs (some p)) (place : Place)
    (suited : ∀ bucket, place = .bucket bucket -> (p, 2) ∈ clean.outstanding) :
    Owned region clean tags (update cached place (p :: cached place)) refs none where
  __ := owned
  exclusive := owned.exclusive.push place ((owned.each p).apart rfl)
  each q := by
    rw [somewhere_push]
    by_cases same : q = p
    · subst same
      obtain ⟨homes, idle, -, small⟩ := owned.each q
      exact ⟨by simpa using homes, fun _ => idle (.inr rfl), by simp, small⟩
    · simpa [same, Ne.symm same] using owned.each q
  buckets bucket q member := by
    rcases mem_push.1 member with ⟨here, rfl⟩ | old
    · exact suited bucket here.symm
    · exact owned.buckets bucket q old

theorem Owned.kinds_update (owned : Owned region clean tags cached refs transit) {count : Nat} (few : refs p ≤ 1)
    (one : count ≤ 1) {q : Nat} (member : (q, order) ∈ clean.outstanding) :
    (order = 2 ∧ tags (mapNr q) = some ((max 1 (update refs p count q) : Nat) : Int)) ∨
      (order = 0 ∧ tags (mapNr q) = none ∧ update refs p count q ≤ 1) := by
  have kind := owned.kinds q order member
  by_cases here : q = p
  · subst here
    rw [max_eq_left few] at kind
    rw [update_self, max_eq_left one]
    exact kind.imp_right fun page => ⟨page.1, page.2.1, one⟩
  · rw [update_of_ne here]
    exact kind

theorem Owned.use (owned : Owned region clean tags cached refs (some p)) :
    Owned region clean tags cached (update refs p (refs p + 1)) none := by
  have unused := (owned.each p).idle (.inr rfl)
  rw [unused]
  refine ⟨owned.tagged, fun q order member => owned.kinds_update (by omega) (by omega) member, owned.exclusive,
    fun q => ?_, owned.buckets⟩
  by_cases here : q = p
  · subst here
    obtain ⟨homes, -, apart, -⟩ := owned.each q
    refine ⟨by simpa using homes, fun there => ?_, by simp, by simp⟩
    exact absurd (there.resolve_right (by simp)) (apart rfl)
  · simpa [here, Ne.symm here] using owned.each q

section

variable (owned : Owned region clean tags cached refs none)

include owned

theorem Owned.release (one : refs p = 1) :
    Owned region clean tags cached (update refs p (refs p - 1)) (some p) := by
  rw [one]
  refine ⟨owned.tagged, fun q order member => owned.kinds_update (by omega) (by omega) member, owned.exclusive,
    fun q => ?_, owned.buckets⟩
  by_cases here : q = p
  · subst here
    obtain ⟨homes, idle, -, -⟩ := owned.each q
    refine ⟨by simpa [one] using homes, by simp, fun _ there => ?_, by simp⟩
    have unused := idle (.inl there)
    omega
  · simpa [here, Ne.symm here] using owned.each q

theorem Owned.recount (member : (p, 2) ∈ clean.outstanding)
    (used : 0 < refs p) {count : Nat} (still : 0 < count) (small : count < 2 ^ 31) :
    Owned region clean (update tags (mapNr p) (some (count : Int))) cached (update refs p count) none := by
  refine ⟨⟨owned.tagged.inv, ?_⟩, ?_, owned.exclusive, ?_, owned.buckets⟩
  · intro frame marked
    by_cases here : frame = mapNr p
    · exact ⟨_, member, here.symm⟩
    · rw [update_of_ne here] at marked
      exact owned.tagged.owned frame marked
  · intro q order there
    by_cases here : q = p
    · subst here
      have kind := owned.kinds q order there
      have mark := (owned.kinds q 2 member).resolve_right (by simp)
      rw [mark.2] at kind
      refine Or.inl ⟨(kind.resolve_right (by simp)).1, ?_⟩
      rw [update_self, update_self, max_eq_right still]
    · have frame : mapNr q ≠ mapNr p := fun same => here (owned.frame_inj member there same)
      rw [update_of_ne frame, update_of_ne here]
      exact owned.kinds q order there
  · intro q
    by_cases here : q = p
    · subst here
      obtain ⟨homes, idle, -, -⟩ := owned.each q
      exact ⟨by simpa [used, still] using homes, fun there => absurd (idle there) used.ne', by simp, by simpa using small⟩
    · simpa [here] using owned.each q

theorem Owned.failed (after : Tagged region next tags)
    (same : next.outstanding = clean.outstanding) : Owned region next tags cached refs none := by
  refine ⟨after, ?_, owned.exclusive, ?_, ?_⟩ <;> rw [same]
  · exact owned.kinds
  · exact owned.each
  · exact owned.buckets

theorem Owned.fresh (after : Tagged region next tags)
    (fresh : Fresh clean next tags p order) {tag : Option Int}
    (kind : (order = 2 ∧ tag = some 1) ∨ (order = 0 ∧ tag = none)) :
    Owned region next (update tags (mapNr p) tag) cached refs (some p) := by
  have new : ¬ ∃ order, (p, order) ∈ clean.outstanding := fun ⟨_, member⟩ => fresh.apart _ member rfl
  have nowhere := mt (owned.each p).homes.2 new
  simp only [not_or, Nat.not_lt, Nat.le_zero] at nowhere
  have grown := fresh.outstanding
  refine ⟨⟨after.inv, ?_⟩, ?_, owned.exclusive, ?_, ?_⟩
  · intro frame marked
    by_cases here : frame = mapNr p
    · exact ⟨(p, order), by rw [grown]; exact mem_cons_self, here.symm⟩
    · rw [update_of_ne here] at marked
      exact after.owned frame marked
  · intro q order' member
    rw [grown] at member
    rcases mem_cons.1 member with same | old
    · cases same
      rw [update_self, nowhere.1]
      rcases kind with ⟨rfl, rfl⟩ | ⟨rfl, rfl⟩
      · exact Or.inl ⟨rfl, rfl⟩
      · exact Or.inr ⟨rfl, rfl, Nat.zero_le 1⟩
    · rw [update_of_ne (fresh.apart _ old)]
      exact owned.kinds q order' old
  · intro q
    rw [grown]
    by_cases here : q = p
    · subst here
      exact ⟨iff_of_true ⟨order, mem_cons_self⟩ (.inr (.inr rfl)), fun _ => nowhere.1, fun _ => nowhere.2.1,
        (owned.each q).small⟩
    · simpa [here, Ne.symm here] using owned.each q
  · intro bucket q member
    rw [grown]
    exact mem_cons_of_mem _ (owned.buckets bucket q member)

theorem Owned.freshPage (after : Tagged region next tags) (fresh : Fresh clean next tags p 0) :
    Owned region next tags cached refs (some p) := by
  have moving := owned.fresh after fresh (.inr ⟨rfl, rfl⟩)
  rwa [← fresh.unmarked, update_eq_self] at moving

end

theorem Owned.give (owned : Owned region clean tags cached refs (some p)) (member : (p, order) ∈ clean.outstanding) :
    ∃ next, givePages (clean.retag (update tags (mapNr p) none)) p order =
        some (next.retag (update tags (mapNr p) none)) ∧
      Owned region next (update tags (mapNr p) none) cached refs none := by
  have unmarked : Tagged region clean (update tags (mapNr p) none) := by
    refine ⟨owned.tagged.inv, fun frame marked => ?_⟩
    by_cases here : frame = mapNr p
    · simp [here] at marked
    · rw [update_of_ne here] at marked
      exact owned.tagged.owned frame marked
  obtain ⟨next, given, after, shrunk⟩ := unmarked.givePages member (update_self ..)
  have left {entry : Nat × Nat} (inside : entry ∈ clean.outstanding.erase (p, order)) : mapNr entry.1 ≠ mapNr p :=
    owned.tagged.inv.frame_unique (perm_cons_erase member) inside
  have absent := (owned.each p).apart rfl
  refine ⟨next, given, after, ?_, owned.exclusive, ?_, ?_⟩
  · intro q order' inside
    rw [shrunk] at inside
    rw [update_of_ne (left inside)]
    exact owned.kinds q order' (mem_of_mem_erase inside)
  · intro q
    rw [shrunk]
    by_cases here : q = p
    · subst here
      have gone : ¬ ∃ order', (q, order') ∈ clean.outstanding.erase (q, order) := fun ⟨_, inside⟩ => left inside rfl
      have unused := (owned.each q).idle (.inr rfl)
      exact ⟨by simp [gone, absent, unused], fun _ => unused, by simp, (owned.each q).small⟩
    have kept (order' : Nat) : (q, order') ∈ clean.outstanding.erase (p, order) ↔ (q, order') ∈ clean.outstanding :=
      mem_erase_of_ne fun same => here (Prod.mk.inj same).1
    simpa [kept, Ne.symm here] using owned.each q
  · intro bucket q inside
    rw [shrunk]
    refine (mem_erase_of_ne fun same => ?_).2 (owned.buckets bucket q inside)
    exact absent ⟨_, (Prod.mk.inj same).1 ▸ inside⟩

variable (owned : Owned region clean tags cached refs transit)

include owned

theorem Owned.clean_page (member : (p, order) ∈ clean.outstanding) :
    (clean.mem.page (mapNr p)).netBuf = false ∧ (clean.mem.page (mapNr p)).count = 1 := by
  have mem := owned.tagged.inv.mem
  have held : allocation (p, order) ∈ clean.held := mem_map_of_mem member
  have inside := mem.areas.tiling.within (mem_append_right _ held) _ (allocation (p, order)).holds_start
  exact ⟨(mem.ordinary _ inside).2.2.2.1, mem.counted _ held⟩

theorem Owned.netbuf_page (member : (p, 2) ∈ clean.outstanding) :
    (clean.retag tags).mem.page (mapNr p) = (clean.mem.page (mapNr p)).retag (some ((max 1 (refs p) : Nat) : Int)) := by
  have kind := (owned.kinds p 2 member).resolve_right (by simp)
  rw [← kind.2]
  rfl

theorem Owned.plain_page (member : (p, 0) ∈ clean.outstanding) :
    (clean.retag tags).mem.page (mapNr p) = clean.mem.page (mapNr p) := by
  have kind := (owned.kinds p 0 member).resolve_left (by simp)
  have page : (clean.retag tags).mem.page (mapNr p) = (clean.mem.page (mapNr p)).retag (tags (mapNr p)) := rfl
  rw [page, kind.2.1]
  rfl

end JinyKernel.Netbuf
