import JinyKernel.Shared.Dyadic

namespace Dyadic

open Block List

def Paired (top : Nat) (bits : Nat -> Nat -> Bool) (free : List Block) : Prop :=
  ∀ order index, order < top ->
    bits order index = (decide (left order index ∈ free) ^^ decide (right order index ∈ free))

theorem paired_iff (top : Nat) (bits : Nat -> Nat -> Bool) (free : List Block) :
    Paired top bits free ↔ ∀ b : Block, b.Aligned -> b.order < top ->
      bits b.order b.pair = (decide (b ∈ free) ^^ decide (b.buddy ∈ free)) := by
  constructor
  · intro paired b aligned below
    rw [paired b.order b.pair below]
    rcases aligned.half with half | half
    · rw [← half, ← buddy_left, ← half]
    · rw [← half, ← buddy_right, ← half, Bool.xor_comm]
  · intro each order index below
    have pairs := each (left order index) (aligned_left order index) below
    rwa [pair_left, buddy_left] at pairs

def toggle (bits : Nat -> Nat -> Bool) (b : Block) (order index : Nat) : Bool :=
  if order = b.order ∧ index = b.pair then !bits order index else bits order index

variable {b : Block} {top : Nat} {free free' : List Block}

theorem toggle_buddy (bits : Nat -> Nat -> Bool) (aligned : b.Aligned) : toggle bits b.buddy = toggle bits b := by
  funext order index
  simp [toggle, pair_buddy aligned, show b.buddy.order = b.order from rfl]

theorem Paired.toggle {bits : Nat -> Nat -> Bool} (paired : Paired top bits free) (aligned : b.Aligned)
    (same : ∀ c, c ≠ b -> (c ∈ free' ↔ c ∈ free)) (flipped : b ∈ free' ↔ b ∉ free) :
    Paired top (toggle bits b) free' := by
  rw [paired_iff] at paired ⊢
  intro c alignedC below
  have before := paired c alignedC below
  by_cases here : c.order = b.order ∧ c.pair = b.pair
  · rw [Dyadic.toggle, if_pos here, before]
    rcases eq_or_buddy aligned alignedC here.1 here.2 with rfl | rfl
    · simp only [flipped, same c.buddy buddy_ne]
      by_cases member : c ∈ free <;> simp [member]
    · simp only [buddy_buddy, flipped, same b.buddy buddy_ne]
      by_cases member : b ∈ free <;> simp [member]
  · have notSelf : c ≠ b := by rintro rfl; exact here ⟨rfl, rfl⟩
    have notBuddy : c.buddy ≠ b := by
      rintro rfl
      exact here ⟨rfl, (pair_buddy alignedC).symm⟩
    rw [Dyadic.toggle, if_neg here, before]
    simp [same c notSelf, same c.buddy notBuddy]

theorem Coalesced.mono (coalesced : Coalesced top free) (fewer : ∀ b ∈ free', b ∈ free) : Coalesced top free' :=
  fun order index below both => coalesced order index below ⟨fewer _ both.1, fewer _ both.2⟩

theorem Coalesced.cons (coalesced : Coalesced top free) (alone : b.order < top -> b.buddy ∉ free) :
    Coalesced top (b :: free) := by
  rintro order index below ⟨hasLeft, hasRight⟩
  have different : left order index ≠ right order index := by
    rw [← buddy_left]
    exact buddy_ne.symm
  rcases mem_cons.1 hasLeft with isLeft | inLeft <;>
    rcases mem_cons.1 hasRight with isRight | inRight
  · exact different (isLeft.trans isRight.symm)
  · subst isLeft
    exact alone below (buddy_left order index ▸ inRight)
  · subst isRight
    exact alone below (buddy_right order index ▸ inLeft)
  · exact coalesced order index below ⟨inLeft, inRight⟩

structure System (top : Nat) (region : Nat -> Prop) (bits : Nat -> Nat -> Bool)
    (free held : List Block) : Prop where
  tiling : Tiling region (free ++ held)
  bounded : ∀ b ∈ free ++ held, b.order ≤ top
  paired : Paired top bits free
  coalesced : Coalesced top free

namespace System

variable {top : Nat} {region : Nat -> Prop} {bits bits' : Nat -> Nat -> Bool}
  {free free' held held' : List Block} {b : Block}

theorem congr (system : System top region bits free held) (sameFree : free.Perm free')
    (sameHeld : held.Perm held') (sameBits : ∀ order index, order < top -> bits' order index = bits order index) :
    System top region bits' free' held' where
  tiling := system.tiling.perm (sameFree.append sameHeld)
  bounded b member := system.bounded b ((sameFree.append sameHeld).mem_iff.2 member)
  paired order index below := by
    simp [sameBits order index below, system.paired order index below, sameFree.mem_iff]
  coalesced := system.coalesced.mono fun b => sameFree.mem_iff.2

theorem extend (system : System top region bits free held) (aligned : b.Aligned) (bounded : b.order ≤ top)
    (fresh : ∀ cell, b.Holds cell -> ¬ region cell) :
    System top (fun cell => region cell ∨ b.Holds cell) bits free (b :: held) where
  tiling := (system.tiling.cons aligned fresh).perm List.perm_middle.symm
  bounded c member := by
    rcases mem_cons.1 (perm_middle.mem_iff.1 member) with rfl | old
    · exact bounded
    · exact system.bounded c old
  __ := system

section

variable (system : System top region bits free (b :: held))

include system

theorem held_aligned : b.Aligned :=
  system.tiling.aligned b (by simp)

theorem held_bounded : b.order ≤ top :=
  system.bounded b (by simp)

theorem held_first : Tiling region (b :: (free ++ held)) :=
  system.tiling.perm perm_middle

theorem held_notMem : b ∉ free :=
  fun member => system.held_first.head_notMem (mem_append_left held member)

theorem held_bit (below : b.order < top) :
    bits b.order b.pair = decide (b.buddy ∈ free) := by
  rw [(paired_iff top bits free).1 system.paired b system.held_aligned below]
  simp [system.held_notMem]

theorem give (below : b.order < top)
    (unset : bits b.order b.pair = false) : System top region (toggle bits b) (b :: free) held where
  tiling := system.held_first
  bounded c member := system.bounded c (List.perm_middle.mem_iff.2 member)
  paired := system.paired.toggle system.held_aligned (by simp +contextual) (by simp [system.held_notMem])
  coalesced := system.coalesced.cons fun _ member => by
    rw [system.held_bit below, decide_eq_false_iff_not] at unset
    exact unset member

theorem giveTop (last : b.order = top) :
    System top region bits (b :: free) held where
  tiling := system.held_first
  bounded c member := system.bounded c (List.perm_middle.mem_iff.2 member)
  paired order index below := by
    have notLeft : left order index ≠ b := by
      rintro rfl
      exact below.ne last
    have notRight : right order index ≠ b := by
      rintro rfl
      exact below.ne last
    simp [system.paired order index below, notLeft, notRight]
  coalesced := system.coalesced.cons fun below => absurd last below.ne

end

theorem take (system : System top region bits (b :: free) held) :
    System top region (toggle bits b) free (b :: held) where
  tiling := system.tiling.perm List.perm_middle.symm
  bounded c member := system.bounded c (List.perm_middle.mem_iff.1 member)
  paired := by
    have fresh : b ∉ free := fun member =>
      system.tiling.head_notMem (mem_append_left held member)
    exact system.paired.toggle (system.tiling.aligned b (by simp)) (by simp +contextual) (by simp [fresh])
  coalesced := system.coalesced.mono fun c => mem_cons_of_mem b

theorem merge (system : System top region bits (b.buddy :: free) (b :: held)) (below : b.order < top) :
    System top region (toggle bits b) free (b.parent :: held) := by
  have aligned := system.held_aligned
  have taken := system.take
  rw [toggle_buddy bits aligned] at taken
  have both : Tiling region (left b.order b.pair :: right b.order b.pair :: (free ++ held)) := by
    have front : (free ++ b.buddy :: b :: held).Perm (b.buddy :: b :: (free ++ held)) :=
      perm_middle.trans (perm_middle.cons _)
    have tiling := taken.tiling.perm front
    rcases aligned.half with half | half
    · have other : b.buddy = right b.order b.pair := by rw [half, buddy_left, ← half]
      rw [← other, ← half]
      exact tiling.perm (List.Perm.swap _ _ _)
    · have other : b.buddy = left b.order b.pair := by rw [half, buddy_right, ← half]
      rwa [← other, ← half]
  refine ⟨both.merge.perm perm_middle.symm, fun c member => ?_, taken.paired, taken.coalesced⟩
  simp only [mem_append, mem_cons] at member
  rcases member with inFree | rfl | inHeld
  · exact taken.bounded c (by simp [inFree])
  · exact below
  · exact taken.bounded c (by simp [inHeld])

theorem split {order index : Nat} (system : System top region bits free (whole order index :: held)) :
    System top region (toggle bits (left order index)) (left order index :: free)
      (right order index :: held) := by
  have below : order < top := system.held_bounded
  have halves := system.held_first.split
  have fresh (c : Block) (inFree : c ∈ free) : c ≠ left order index ∧ c ≠ right order index := by
    constructor
    · rintro rfl
      exact halves.head_notMem (by simp [inFree])
    · rintro rfl
      exact (pairwise_cons.1 halves.apart).2 |> pairwise_cons.1 |>.1 _
        (by simp [inFree]) |> not_apart_self _
  refine ⟨?_, ?_, ?_, ?_⟩
  · exact halves.perm (perm_middle.symm.cons _)
  · intro c member
    simp only [cons_append, mem_cons, mem_append] at member
    rcases member with rfl | inFree | rfl | inHeld
    · exact below.le
    · exact system.bounded c (by simp [inFree])
    · exact below.le
    · exact system.bounded c (by simp [inHeld])
  · refine system.paired.toggle (aligned_left order index) (by simp +contextual) ?_
    simpa using fun member => (fresh _ member).1 rfl
  · refine system.coalesced.cons fun _ member => ?_
    rw [buddy_left] at member
    exact (fresh _ member).2 rfl

end System

end Dyadic
