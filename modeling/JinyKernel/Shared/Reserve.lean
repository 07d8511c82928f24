import Mathlib.Data.List.Pairwise
import Mathlib.Order.Nat

namespace Reserve

open List

variable {Item : Type}

def Clear (left right : Nat × Nat) : Prop := left.2 ≤ right.1 ∨ right.2 ≤ left.1

structure Packed (range : Item -> Option (Nat × Nat)) (mark : Nat) (items : List Item) : Prop where
  apart : items.Pairwise fun a b => ∀ r ∈ range a, ∀ q ∈ range b, Clear r q
  proper : ∀ a ∈ items, ∀ r ∈ range a, r.1 < r.2
  inside : ∀ a ∈ items, ∀ r ∈ range a, r.2 ≤ mark

theorem pairwise_set {rel : Item -> Item -> Prop} (symm : ∀ a b, rel a b -> rel b a) {items : List Item}
    (pairs : items.Pairwise rel) {i : Nat} {a a' : Item} (here : items[i]? = some a)
    (keep : ∀ b ∈ items, rel a b -> rel a' b) : (items.set i a').Pairwise rel := by
  induction items generalizing i with
  | nil => simp at here
  | cons first rest ih =>
    obtain ⟨ahead, later⟩ := pairwise_cons.1 pairs
    cases i with
    | zero =>
      obtain rfl : first = a := by simpa using here
      refine pairwise_cons.2 ⟨fun b member => ?_, later⟩
      exact keep b (mem_cons_of_mem _ member) (ahead b member)
    | succ i =>
      have here' : rest[i]? = some a := by simpa using here
      refine pairwise_cons.2 ⟨fun b member => ?_, ih later here' fun b member => keep b (.tail _ member)⟩
      rcases mem_or_eq_of_mem_set member with old | rfl
      · exact ahead b old
      · exact symm _ _ (keep first (.head _) (symm _ _ (ahead a (mem_of_getElem? here'))))

variable {range : Item -> Option (Nat × Nat)} {mark mark' : Nat} {items : List Item}

variable (packed : Packed range mark items) (higher : mark ≤ mark')

include packed higher

theorem Packed.raise : Packed range mark' items where
  __ := packed
  inside a member r owned := (packed.inside a member r owned).trans higher

theorem Packed.append {a : Item}
    (behind : ∀ r ∈ range a, mark ≤ r.1 ∧ r.1 < r.2 ∧ r.2 ≤ mark') : Packed range mark' (items ++ [a]) where
  apart := by
    rw [pairwise_append]
    refine ⟨packed.apart, pairwise_singleton _ _, ?_⟩
    intro b member c only r owned q new
    obtain rfl := mem_singleton.1 only
    exact .inl ((packed.inside b member r owned).trans (behind q new).1)
  proper b member r owned := by
    rcases mem_append.1 member with old | only
    · exact packed.proper b old r owned
    · obtain rfl := mem_singleton.1 only
      exact (behind r owned).2.1
  inside b member r owned := by
    rcases mem_append.1 member with old | only
    · exact (packed.inside b old r owned).trans higher
    · obtain rfl := mem_singleton.1 only
      exact (behind r owned).2.2

theorem Packed.set {i : Nat} {a a' : Item}
    (here : items[i]? = some a)
    (grows : ∀ r' ∈ range a', ∃ r ∈ range a, r'.1 = r.1 ∧ r.2 ≤ r'.2 ∧ r'.2 ≤ mark' ∧ (r'.2 = r.2 ∨ r.2 = mark)) :
    Packed range mark' (items.set i a') where
  apart := by
    refine pairwise_set (fun b c pair r owned q other => (pair q other r owned).symm) packed.apart here ?_
    intro b member pair r' owned' q other
    obtain ⟨r, owned, first, -, -, last⟩ := grows r' owned'
    have proper := packed.proper b member q other
    have inside := packed.inside b member q other
    have clear := pair r owned q other
    simp only [Clear] at *
    omega
  proper b member r owned := by
    rcases mem_or_eq_of_mem_set member with old | rfl
    · exact packed.proper b old r owned
    · obtain ⟨q, other, first, longer, -, -⟩ := grows r owned
      have proper := packed.proper a (mem_of_getElem? here) q other
      omega
  inside b member r owned := by
    rcases mem_or_eq_of_mem_set member with old | rfl
    · exact (packed.inside b old r owned).trans higher
    · obtain ⟨q, other, -, -, below, -⟩ := grows r owned
      exact below

end Reserve
