import Mathlib.Data.List.Basic

namespace Descending

open List Option

variable {Item : Type} {key : Item -> Nat} {item : Item} {items longer : List Item} {wanted : Nat}

def Ordered (key : Item -> Nat) (items : List Item) : Prop := items.Pairwise fun before after => key after < key before

def insert (key : Item -> Nat) (item : Item) : List Item -> Option (List Item)
  | [] => some [item]
  | first :: rest =>
    if key item = key first then none
    else if key first < key item then some (item :: first :: rest)
    else (insert key item rest).map (first :: ·)

def search (key : Item -> Nat) (wanted : Nat) : List Item -> Option Item
  | [] => none
  | first :: rest =>
    if key first = wanted then some first
    else if key first < wanted then none
    else search key wanted rest

theorem Ordered.inj (ordered : Ordered key items) {other : Item} (here : item ∈ items) (there : other ∈ items)
    (same : key item = key other) : item = other := by
  induction items with
  | nil => cases here
  | cons first rest ih =>
    obtain ⟨below, ordered⟩ := pairwise_cons.1 ordered
    rcases mem_cons.1 here with first | front <;> rcases mem_cons.1 there with first' | back
    · rw [first, first']
    · have less := below other back
      rw [← first] at less
      omega
    · have less := below item front
      rw [← first'] at less
      omega
    · exact ih ordered front back

theorem mem_insert (added : insert key item items = some longer) (other : Item) :
    other ∈ longer ↔ other = item ∨ other ∈ items := by
  induction items generalizing longer with
  | nil =>
    cases added
    rw [mem_cons]
  | cons first rest ih =>
    rw [insert] at added
    split at added
    next => cases added
    split at added
    next =>
      cases added
      rw [mem_cons]
    obtain ⟨tail, inserted, rfl⟩ := map_eq_some_iff.1 added
    rw [mem_cons, mem_cons, ih inserted]
    exact or_left_comm

theorem Ordered.insert (ordered : Ordered key items) (added : insert key item items = some longer) :
    Ordered key longer := by
  induction items generalizing longer with
  | nil =>
    cases added
    exact pairwise_singleton ..
  | cons first rest ih =>
    obtain ⟨below, ordered'⟩ := pairwise_cons.1 ordered
    rw [Descending.insert] at added
    split at added
    next => cases added
    next apart =>
      split at added
      next greater =>
        cases added
        refine pairwise_cons.2 ⟨fun other member => ?_, ordered⟩
        rcases mem_cons.1 member with rfl | later
        · exact greater
        · exact Nat.lt_trans (below other later) greater
      next notGreater =>
        obtain ⟨tail, inserted, rfl⟩ := map_eq_some_iff.1 added
        refine pairwise_cons.2 ⟨fun other member => ?_, ih ordered' inserted⟩
        rcases (mem_insert inserted other).1 member with rfl | later
        · omega
        · exact below other later

theorem Ordered.insert_eq_none (ordered : Ordered key items) :
    Descending.insert key item items = none ↔ ∃ other ∈ items, key other = key item := by
  induction items with
  | nil => simp [Descending.insert]
  | cons first rest ih =>
    obtain ⟨below, ordered⟩ := pairwise_cons.1 ordered
    rw [Descending.insert]
    split
    next same => exact iff_of_true rfl ⟨first, mem_cons_self, same.symm⟩
    next apart =>
      split
      next greater =>
        -- behind a smaller key there are only smaller ones
        refine iff_of_false (by simp) ?_
        rintro ⟨other, member, same⟩
        rcases mem_cons.1 member with rfl | later
        · exact apart same.symm
        · have less := below other later
          omega
      next =>
        rw [map_eq_none_iff, ih ordered, exists_mem_cons_iff]
        exact ⟨Or.inr, fun found => found.resolve_left fun same => apart same.symm⟩

theorem Ordered.search_eq_some (ordered : Ordered key items) :
    search key wanted items = some item ↔ item ∈ items ∧ key item = wanted := by
  induction items with
  | nil => simp [search]
  | cons first rest ih =>
    obtain ⟨below, ordered'⟩ := pairwise_cons.1 ordered
    rw [search]
    split
    next here =>
      rw [some.injEq]
      constructor
      · rintro rfl
        exact ⟨mem_cons_self, here⟩
      · rintro ⟨member, same⟩
        exact ordered.inj mem_cons_self member (here.trans same.symm)
    next apart =>
      split
      next less =>
        refine iff_of_false (by simp) ?_
        rintro ⟨member, same⟩
        rcases mem_cons.1 member with rfl | later
        · exact apart same
        · have smaller := below item later
          omega
      next =>
        rw [ih ordered', mem_cons]
        constructor
        · rintro ⟨member, same⟩
          exact ⟨.inr member, same⟩
        · rintro ⟨rfl | member, same⟩
          · exact absurd same apart
          · exact ⟨member, same⟩

theorem Ordered.sublist (ordered : Ordered key longer) (shorter : items.Sublist longer) : Ordered key items :=
  List.Pairwise.sublist shorter ordered

theorem Ordered.congr {other : Item -> Nat} (ordered : Ordered key items) (same : ∀ item ∈ items, other item = key item) :
    Ordered other items := by
  refine List.Pairwise.imp_of_mem ?_ ordered
  intro before after here there less
  rw [same before here, same after there]
  exact less

end Descending
