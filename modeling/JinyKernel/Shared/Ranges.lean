import Mathlib.Data.List.Pairwise
import Mathlib.Order.Nat

namespace Ranges

open List

variable {A : Type} {low high : A -> Nat}

structure Separated (low high : A -> Nat) (entries : List A) : Prop where
  proper : ∀ entry ∈ entries, low entry ≤ high entry
  ordered : entries.Pairwise fun left right => high left ≤ low right

namespace Separated

variable {entries : List A}

theorem nil : Separated low high ([] : List A) := ⟨by simp, List.Pairwise.nil⟩

theorem sublist {fewer : List A} (separated : Separated low high entries) (sub : fewer.Sublist entries) :
    Separated low high fewer :=
  ⟨fun entry member => separated.proper entry (sub.subset member), separated.ordered.sublist sub⟩

theorem sorted (separated : Separated low high entries) :
    entries.Pairwise fun left right => low left ≤ low right := by
  refine separated.ordered.imp_of_mem ?_
  intro left right hasLeft _ apart
  exact (separated.proper left hasLeft).trans apart

variable {entry : A}

theorem cons (separated : Separated low high entries) (proper : low entry ≤ high entry)
    (first : ∀ other ∈ entries, high entry ≤ low other) : Separated low high (entry :: entries) where
  proper := by simpa using ⟨proper, separated.proper⟩
  ordered := pairwise_cons.2 ⟨first, separated.ordered⟩

theorem tail (separated : Separated low high (entry :: entries)) : Separated low high entries :=
  separated.sublist (sublist_cons_self entry entries)

theorem head (separated : Separated low high (entry :: entries)) {other : A} (member : other ∈ entries) :
    high entry ≤ low other :=
  (pairwise_cons.1 separated.ordered).1 other member

theorem before {first : A} (separated : Separated low high (first :: entries)) (below : high entry ≤ low first) :
    ∀ other ∈ first :: entries, high entry ≤ low other := by
  intro other member
  rcases mem_cons.1 member with rfl | later
  · exact below
  · exact below.trans ((separated.proper first (by simp)).trans (separated.head later))

theorem insert {early late : List A} (separated : Separated low high (early ++ late))
    (proper : low entry ≤ high entry) (below : ∀ other ∈ early, high other ≤ low entry)
    (above : ∀ other ∈ late.head?, high entry ≤ low other) : Separated low high (early ++ entry :: late) := by
  have parts := pairwise_append.1 separated.ordered
  have behind : Separated low high (entry :: late) := by
    have rest := separated.sublist (sublist_append_right early late)
    cases late with
    | nil => exact rest.cons proper (by simp)
    | cons first later => exact rest.cons proper (rest.before (above first rfl))
  refine ⟨fun other member => ?_, pairwise_append.2 ⟨parts.1, behind.ordered, fun left early right later => ?_⟩⟩
  · rcases mem_append.1 member with inEarly | inLate
    · exact separated.proper other (mem_append_left _ inEarly)
    · exact behind.proper other inLate
  · rcases mem_cons.1 later with rfl | inLate
    · exact below left early
    · exact parts.2.2 left early right inLate

theorem resize {early late : List A} {larger : A} (separated : Separated low high (early ++ entry :: late))
    (sameLow : low larger = low entry) (proper : low entry ≤ high larger)
    (clear : ∀ other ∈ late, high larger ≤ low other) : Separated low high (early ++ larger :: late) := by
  have parts := pairwise_append.1 separated.ordered
  refine ⟨?_, pairwise_append.2 ⟨parts.1, ?_, ?_⟩⟩
  · intro other member
    rcases mem_append.1 member with inEarly | inRest
    · exact separated.proper other (mem_append_left _ inEarly)
    · rcases mem_cons.1 inRest with rfl | inLate
      · omega
      · exact separated.proper other (by simp [inLate])
  · exact pairwise_cons.2 ⟨clear, (pairwise_cons.1 parts.2.1).2⟩
  · intro first hasFirst other member
    rcases mem_cons.1 member with rfl | inLate
    · exact sameLow ▸ parts.2.2 first hasFirst entry (by simp)
    · exact parts.2.2 first hasFirst other (by simp [inLate])

-- Two such lists can differ only among empty ranges at one place.
theorem eq_of_perm {others : List A} (left : Separated low high entries) (right : Separated low high others)
    (perm : entries.Perm others)
    (places : ∀ place, entries.filter (fun entry => low entry = place ∧ high entry = place) =
      others.filter fun entry => low entry = place ∧ high entry = place) : entries = others := by
  induction entries generalizing others with
  | nil => exact perm.nil_eq
  | cons first rest ih =>
    cases others with
    | nil => exact perm.eq_nil
    | cons other later =>
      obtain rfl : first = other := by
        by_contra differ
        have before := left.head ((mem_cons.1 (perm.mem_iff.2 mem_cons_self)).resolve_left (Ne.symm differ))
        have behind := right.head ((mem_cons.1 (perm.mem_iff.1 mem_cons_self)).resolve_left differ)
        have properFirst := left.proper first mem_cons_self
        have properOther := right.proper other mem_cons_self
        have heads := places (low first)
        rw [filter_cons_of_pos (by simp; omega), filter_cons_of_pos (by simp; omega)] at heads
        exact differ (cons.inj heads).1
      rw [ih left.tail right.tail perm.cons_inv fun place => ?_]
      have same := places place
      rw [filter_cons, filter_cons] at same
      split_ifs at same
      · exact (cons.inj same).2
      · exact same

end Separated

end Ranges
