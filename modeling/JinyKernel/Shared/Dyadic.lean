import Mathlib.Order.Interval.Finset.Nat
import Mathlib.Tactic.Ring
import Mathlib.Tactic.Linarith
import Mathlib.Data.Nat.Bitwise

-- A block of order `o` is a run of `2 ^ o` cells; aligned blocks are nested or disjoint.

namespace Dyadic

open List

@[ext]
structure Block where
  order : Nat
  start : Nat
  deriving DecidableEq, Repr

namespace Block

variable (b : Block)

def size : Nat := 2 ^ b.order

def Holds (cell : Nat) : Prop := b.start ≤ cell ∧ cell < b.start + b.size

instance (b : Block) (cell : Nat) : Decidable (b.Holds cell) := inferInstanceAs (Decidable (_ ∧ _))

def Aligned : Prop := b.size ∣ b.start

def Apart (a b : Block) : Prop := a.start + a.size ≤ b.start ∨ b.start + b.size ≤ a.start

def Within (region : Nat -> Prop) : Prop := ∀ cell, b.Holds cell -> region cell

variable (order index : Nat)

def left : Block := ⟨order, 2 * index * 2 ^ order⟩
def right : Block := ⟨order, (2 * index + 1) * 2 ^ order⟩
def whole : Block := ⟨order + 1, index * 2 ^ (order + 1)⟩

theorem size_pos : 0 < b.size := Nat.two_pow_pos _

theorem holds_start : b.Holds b.start := by
  have := b.size_pos
  constructor <;> omega

variable {a b : Block} {cell : Nat}

theorem Apart.symm (apart : a.Apart b) : b.Apart a := Or.symm apart

instance : Std.Symm Apart := ⟨fun _ _ => Apart.symm⟩

theorem apart_iff (a b : Block) : a.Apart b ↔ ∀ cell, ¬ (a.Holds cell ∧ b.Holds cell) := by
  have hasA := a.size_pos
  have hasB := b.size_pos
  constructor
  · intro apart cell
    simp only [Apart, Holds] at *
    omega
  intro never
  have atA := never a.start
  have atB := never b.start
  simp only [Apart, Holds] at *
  omega

theorem Apart.not_holds (apart : a.Apart b) (inside : a.Holds cell) : ¬ b.Holds cell :=
  fun other => (apart_iff a b).1 apart cell ⟨inside, other⟩

theorem not_apart_self (b : Block) : ¬ b.Apart b := by
  have := b.size_pos
  simp only [Apart]
  omega

theorem Aligned.holds_iff (aligned : b.Aligned) (cell : Nat) : b.Holds cell ↔ cell / b.size = b.start / b.size := by
  obtain ⟨k, hk⟩ := aligned
  have positive := b.size_pos
  rw [Holds, hk, Nat.mul_div_cancel_left k positive, Nat.div_eq_iff positive, Nat.mul_comm]
  omega

theorem Aligned.nested (alignedA : a.Aligned) (alignedB : b.Aligned) (smaller : a.order ≤ b.order)
    (inA : a.Holds cell) (inB : b.Holds cell) : a.Within b.Holds := by
  obtain ⟨k, hk⟩ : ∃ k, b.size = a.size * k := Nat.pow_dvd_pow 2 smaller
  intro other inOther
  rw [alignedA.holds_iff] at inA inOther
  rw [alignedB.holds_iff] at inB ⊢
  rw [← inB, hk, ← Nat.div_div_eq_div_mul, ← Nat.div_div_eq_div_mul, inA, inOther]

theorem Aligned.eq_of_holds (alignedA : a.Aligned) (alignedB : b.Aligned) (same : a.order = b.order)
    (inA : a.Holds cell) (inB : b.Holds cell) : a = b := by
  have sizes : a.size = b.size := by simp [size, same]
  rw [alignedA.holds_iff] at inA
  rw [alignedB.holds_iff, ← sizes] at inB
  have startA := Nat.div_mul_cancel alignedA
  have startB := Nat.div_mul_cancel alignedB
  rw [← sizes] at startB
  ext
  · exact same
  · rw [← startA, ← startB, ← inA, ← inB]

theorem Aligned.eq_whole (aligned : b.Aligned) (order : Nat) (height : b.order = order + 1) :
    b = whole order (b.start / 2 ^ (order + 1)) := by
  have start := Nat.div_mul_cancel aligned
  rw [size, height] at start
  ext
  · exact height
  · exact start.symm

def pair (b : Block) : Nat := b.start / 2 ^ (b.order + 1)
def buddy (b : Block) : Block := ⟨b.order, b.start ^^^ 2 ^ b.order⟩
def parent (b : Block) : Block := whole b.order b.pair

theorem aligned_left : (left order index).Aligned := Dvd.intro_left _ rfl

theorem aligned_right : (right order index).Aligned := Dvd.intro_left _ rfl

theorem aligned_whole : (whole order index).Aligned := Dvd.intro_left _ rfl

theorem whole_holds (order index cell : Nat) :
    (whole order index).Holds cell ↔ (left order index).Holds cell ∨ (right order index).Holds cell := by
  have double : 2 ^ (order + 1) = 2 * 2 ^ order := by rw [Nat.pow_succ, Nat.mul_comm]
  have reorder : index * (2 * 2 ^ order) = 2 * index * 2 ^ order := by ring
  have expand : (2 * index + 1) * 2 ^ order = 2 * index * 2 ^ order + 2 ^ order := by ring
  simp only [Holds, whole, left, right, size, double, reorder, expand]
  omega

theorem left_apart_right : (left order index).Apart (right order index) := by
  have expand : (2 * index + 1) * 2 ^ order = 2 * index * 2 ^ order + 2 ^ order := by ring
  simp only [Apart, left, right, size, expand]
  omega

theorem Aligned.half (aligned : b.Aligned) : b = left b.order b.pair ∨ b = right b.order b.pair := by
  rw [pair]
  obtain ⟨k, hk⟩ := aligned
  have quotient : b.start / 2 ^ (b.order + 1) = k / 2 := by
    rw [Nat.pow_succ, hk, size, Nat.mul_div_mul_left _ _ (Nat.two_pow_pos _)]
  rcases Nat.even_or_odd' k with ⟨half, even | odd⟩
  · left
    ext
    · rfl
    · rw [quotient, even, left, hk, even, size]
      simp [Nat.mul_comm]
  · right
    ext
    · rfl
    · have : (2 * half + 1) / 2 = half := by omega
      rw [quotient, odd, right, hk, odd, size, this, Nat.mul_comm]

theorem pair_left : (left order index).pair = index := by
  have shape : 2 * index * 2 ^ order = index * 2 ^ (order + 1) := by ring
  rw [pair, left, shape, Nat.mul_div_cancel _ (Nat.two_pow_pos _)]

theorem pair_right : (right order index).pair = index := by
  have shape : (2 * index + 1) * 2 ^ order = 2 ^ order + index * 2 ^ (order + 1) := by ring
  have small : 2 ^ order < 2 ^ (order + 1) := Nat.pow_lt_pow_right (by omega) (by omega)
  rw [pair, right, shape, Nat.add_mul_div_right _ _ (Nat.two_pow_pos _), Nat.div_eq_of_lt small, Nat.zero_add]

theorem buddy_left : (left order index).buddy = right order index := by
  have even := even_two_mul index
  simp only [buddy, left, right, ← Nat.shiftLeft_eq]
  rw [← Nat.one_shiftLeft, ← Nat.shiftLeft_xor_distrib, Nat.xor_one_of_even even]

theorem buddy_right : (right order index).buddy = left order index := by
  have odd := odd_two_mul_add_one index
  simp only [buddy, left, right, ← Nat.shiftLeft_eq]
  rw [← Nat.one_shiftLeft, ← Nat.shiftLeft_xor_distrib, Nat.xor_one_of_odd odd, Nat.add_sub_cancel]

theorem pair_buddy (aligned : b.Aligned) : b.buddy.pair = b.pair := by
  generalize index : b.pair = i
  rcases aligned.half with half | half <;> rw [half, index]
  · rw [buddy_left, pair_right]
  · rw [buddy_right, pair_left]

theorem buddy_buddy (b : Block) : b.buddy.buddy = b := by
  simp [buddy]

theorem eq_or_buddy {c : Block} (alignedB : b.Aligned) (alignedC : c.Aligned) (order : c.order = b.order)
    (pair : c.pair = b.pair) : c = b ∨ c = b.buddy := by
  have half := alignedC.half
  rw [order, pair] at half
  rcases alignedB.half with isHalf | isHalf <;> rcases half with other | other
  · exact .inl (other.trans isHalf.symm)
  · exact .inr (by rw [other, ← buddy_left, ← isHalf])
  · exact .inr (by rw [other, ← buddy_right, ← isHalf])
  · exact .inl (other.trans isHalf.symm)

theorem buddy_ne : b.buddy ≠ b := by
  intro same
  have starts : b.start ^^^ 2 ^ b.order = b.start := congrArg Block.start same
  have zero : 2 ^ b.order = 0 := by
    simpa using congrArg (b.start ^^^ ·) starts
  exact absurd zero (Nat.two_pow_pos _).ne'

end Block

open Block

structure Tiling (region : Nat -> Prop) (blocks : List Block) : Prop where
  aligned : ∀ b ∈ blocks, b.Aligned
  apart : blocks.Pairwise Apart
  covers : ∀ cell, region cell ↔ ∃ b ∈ blocks, b.Holds cell

namespace Tiling

variable {region : Nat -> Prop} {blocks other : List Block}

theorem perm (tiling : Tiling region blocks) (same : blocks.Perm other) : Tiling region other where
  aligned b member := tiling.aligned b (same.mem_iff.2 member)
  apart := (same.pairwise_iff fun {_ _} => Apart.symm).1 tiling.apart
  covers cell := by simp [tiling.covers, same.mem_iff]

variable {b : Block} {order index : Nat}

theorem within (tiling : Tiling region blocks) (member : b ∈ blocks) : b.Within region :=
  fun cell inside => (tiling.covers cell).2 ⟨b, member, inside⟩

theorem head_apart (tiling : Tiling region (b :: blocks)) {c : Block} (member : c ∈ blocks) : b.Apart c :=
  (pairwise_cons.1 tiling.apart).1 c member

theorem head_notMem (tiling : Tiling region (b :: blocks)) : b ∉ blocks :=
  fun member => b.not_apart_self (tiling.head_apart member)

theorem eq_of_holds (tiling : Tiling region blocks) {a : Block} (inA : a ∈ blocks) (inB : b ∈ blocks) {cell : Nat}
    (holdsA : a.Holds cell) (holdsB : b.Holds cell) : a = b := by
  by_contra different
  exact (tiling.apart.forall inA inB different).not_holds holdsA holdsB

theorem cons (tiling : Tiling region blocks) (aligned : b.Aligned) (fresh : ∀ cell, b.Holds cell -> ¬ region cell) :
    Tiling (fun cell => region cell ∨ b.Holds cell) (b :: blocks) where
  aligned := by simpa using ⟨aligned, tiling.aligned⟩
  apart := pairwise_cons.2 ⟨fun c member => (apart_iff b c).2 fun cell both =>
    fresh cell both.1 (tiling.within member cell both.2), tiling.apart⟩
  covers cell := by simp [tiling.covers, or_comm]

theorem merge (tiling : Tiling region (left order index :: right order index :: blocks)) :
    Tiling region (whole order index :: blocks) where
  aligned b member := by
    rcases mem_cons.1 member with rfl | rest
    · exact aligned_whole order index
    · exact tiling.aligned b (by simp [rest])
  apart := by
    have parts := pairwise_cons.1 tiling.apart
    have rest := pairwise_cons.1 parts.2
    refine pairwise_cons.2 ⟨fun c member => (apart_iff _ c).2 fun cell both => ?_, rest.2⟩
    rcases (whole_holds order index cell).1 both.1 with inside | inside
    · exact (parts.1 c (by simp [member])).not_holds inside both.2
    · exact (rest.1 c member).not_holds inside both.2
  covers cell := by
    simp [tiling.covers, whole_holds, or_assoc]

theorem split (tiling : Tiling region (whole order index :: blocks)) :
    Tiling region (left order index :: right order index :: blocks) where
  aligned b member := by
    simp only [mem_cons] at member
    rcases member with rfl | rfl | rest
    · exact aligned_left order index
    · exact aligned_right order index
    · exact tiling.aligned b (by simp [rest])
  apart := by
    have parts := pairwise_cons.1 tiling.apart
    have half (b : Block) (inside : ∀ cell, b.Holds cell -> (whole order index).Holds cell) (c : Block)
        (member : c ∈ blocks) : b.Apart c :=
      (apart_iff b c).2 fun cell both => (parts.1 c member).not_holds (inside cell both.1) both.2
    refine pairwise_cons.2 ⟨?_, pairwise_cons.2 ⟨?_, parts.2⟩⟩
    · intro c member
      rcases mem_cons.1 member with rfl | rest
      · exact left_apart_right order index
      · exact half _ (fun cell inside => (whole_holds order index cell).2 (.inl inside)) c rest
    · exact half _ (fun cell inside => (whole_holds order index cell).2 (.inr inside))
  covers cell := by
    simp [tiling.covers, whole_holds, or_assoc]

end Tiling

def Coalesced (top : Nat) (blocks : List Block) : Prop :=
  ∀ order index, order < top -> ¬ (left order index ∈ blocks ∧ right order index ∈ blocks)

namespace Tiling

variable {region : Nat -> Prop} {blocks other : List Block} {top : Nat}

variable (tiling : Tiling region blocks) (coalesced : Coalesced top blocks)

include tiling coalesced

theorem encloses : ∀ (order : Nat) (b : Block), b.order = order -> order ≤ top -> b.Aligned -> b.Within region ->
      ∃ c ∈ blocks, b.order ≤ c.order ∧ c.Holds b.start := by
  intro order
  induction order with
  | zero =>
    intro b height _ _ inside
    obtain ⟨c, member, holds⟩ := (tiling.covers b.start).1 (inside _ b.holds_start)
    exact ⟨c, member, by omega, holds⟩
  | succ order ih =>
    intro b height below aligned inside
    have isWhole := aligned.eq_whole _ height
    generalize hi : b.start / 2 ^ (order + 1) = index at isWhole
    subst isWhole
    have begins : (whole order index).start = (left order index).start := by
      simp only [whole, left]
      ring
    have halves := fun cell => (whole_holds order index cell).2
    obtain ⟨c, memberC, tallC, holdsC⟩ := ih (left order index) rfl (by omega)
      (aligned_left order index) (fun cell half => inside cell (halves cell (.inl half)))
    obtain ⟨d, memberD, tallD, holdsD⟩ := ih (right order index) rfl (by omega)
      (aligned_right order index) (fun cell half => inside cell (halves cell (.inr half)))
    simp only [left, right] at tallC tallD
    by_cases higherC : order < c.order
    · exact ⟨c, memberC, higherC, begins ▸ holdsC⟩
    by_cases higherD : order < d.order
    · have nested := (aligned_whole order index).nested (tiling.aligned d memberD) higherD
        (halves _ (.inr (holds_start _))) holdsD
      exact ⟨d, memberD, higherD, nested _ (holds_start _)⟩
    have isLeft : c = left order index :=
      (tiling.aligned c memberC).eq_of_holds (aligned_left order index)
        (show c.order = order by omega) holdsC (holds_start _)
    have isRight : d = right order index :=
      (tiling.aligned d memberD).eq_of_holds (aligned_right order index)
        (show d.order = order by omega) holdsD (holds_start _)
    exact absurd ⟨isLeft ▸ memberC, isRight ▸ memberD⟩ (coalesced order index (by omega))

theorem mem_iff_maximal (bounded : ∀ b ∈ blocks, b.order ≤ top) (b : Block) :
    b ∈ blocks ↔ b.Aligned ∧ b.order ≤ top ∧ b.Within region ∧
      (b.order < top -> ¬ b.parent.Within region) := by
  have inParent (aligned : b.Aligned) : b.parent.Holds b.start := by
    rw [parent, whole_holds]
    rcases aligned.half with isHalf | isHalf
    · exact .inl (isHalf ▸ b.holds_start)
    · exact .inr (isHalf ▸ b.holds_start)
  constructor
  · intro member
    refine ⟨tiling.aligned b member, bounded b member, tiling.within member, fun below inside => ?_⟩
    have alignedParent : b.parent.Aligned := aligned_whole _ _
    obtain ⟨c, memberC, tall, holds⟩ := tiling.encloses coalesced (b.order + 1) b.parent rfl below
      alignedParent inside
    have nested := alignedParent.nested (tiling.aligned c memberC) tall (holds_start _) holds
    have same := tiling.eq_of_holds member memberC b.holds_start
      (nested _ (inParent (tiling.aligned b member)))
    simp only [← same, parent, whole] at tall
    omega
  · rintro ⟨aligned, below, inside, maximal⟩
    obtain ⟨c, member, tall, holds⟩ := tiling.encloses coalesced _ b rfl below aligned inside
    by_cases same : b.order = c.order
    · rwa [aligned.eq_of_holds (tiling.aligned c member) same b.holds_start holds]
    have higher : b.order < c.order := by omega
    have nested := (aligned_whole b.order b.pair).nested (tiling.aligned c member) higher
      (inParent aligned) holds
    exact absurd (fun cell held => tiling.within member cell (nested cell held))
      (maximal (lt_of_lt_of_le higher (bounded c member)))

theorem unique (bounded : ∀ b ∈ blocks, b.order ≤ top) (tiling' : Tiling region other)
    (coalesced' : Coalesced top other) (bounded' : ∀ b ∈ other, b.order ≤ top) (b : Block) :
    b ∈ blocks ↔ b ∈ other := by
  rw [tiling.mem_iff_maximal coalesced bounded, tiling'.mem_iff_maximal coalesced' bounded']

end Tiling

variable (blocks : List Block)

def cells : Finset Nat :=
  blocks.foldr (fun b rest => Finset.Ico b.start (b.start + b.size) ∪ rest) ∅

theorem mem_cells (cell : Nat) : cell ∈ cells blocks ↔ ∃ b ∈ blocks, b.Holds cell := by
  induction blocks with
  | nil => simp [cells]
  | cons b rest ih =>
    simp only [cells, foldr_cons, Finset.mem_union, Finset.mem_Ico, exists_mem_cons_iff] at ih ⊢
    rw [ih, Holds]

theorem card_cells (apart : blocks.Pairwise Apart) : (cells blocks).card = (blocks.map size).sum := by
  induction blocks with
  | nil => rfl
  | cons b rest ih =>
    have parts := pairwise_cons.1 apart
    have disjoint : Disjoint (Finset.Ico b.start (b.start + b.size)) (cells rest) := by
      rw [Finset.disjoint_left]
      intro cell inside other
      obtain ⟨c, member, holds⟩ := (mem_cells rest cell).1 other
      exact (parts.1 c member).not_holds (Finset.mem_Ico.1 inside) holds
    change (Finset.Ico b.start (b.start + b.size) ∪ cells rest).card = _
    rw [Finset.card_union_of_disjoint disjoint, ih parts.2, Nat.card_Ico, map_cons, sum_cons]
    omega

theorem sum_size_le (apart : blocks.Pairwise Apart) (limit : Nat)
    (below : ∀ b ∈ blocks, b.Within (· < limit)) : (blocks.map size).sum ≤ limit := by
  rw [← card_cells blocks apart, ← Finset.card_range limit]
  apply Finset.card_le_card
  intro cell member
  obtain ⟨b, inside, holds⟩ := (mem_cells blocks cell).1 member
  exact Finset.mem_range.2 (below b inside cell holds)

end Dyadic
