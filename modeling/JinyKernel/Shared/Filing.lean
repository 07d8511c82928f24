import Mathlib.Algebra.BigOperators.Fin
import Mathlib.Algebra.Order.BigOperators.Group.Finset

namespace Updates

open Function

variable {A B C : Type} [DecidableEq A] {f : A -> B} {a : A} {v : B}

theorem same (p : B -> C) (eq : p v = p (f a)) (x : A) : p (update f a v x) = p (f x) := by
  rw [apply_update fun _ => p, eq, update_eq_self]

theorem both {g : A -> C} {w : C} (holds : A -> B -> C -> Prop) (here : holds a v w)
    (there : ∀ x ≠ a, holds x (f x) (g x)) (x : A) : holds x (update f a v x) (update g a w x) := by
  by_cases same : x = a
  · subst same
    simpa using here
  · simpa [same] using there x same

-- Only the new pair is looked at anew.
theorem linked {I : Type} [DecidableEq I] {g : I -> C} {i : I} {w : C} (P : B -> I -> Prop) (Q : C -> A -> Prop)
    (holds : ∀ a i, P (f a) i ↔ Q (g i) a) (here : P v i ↔ Q w a) (row : ∀ j ≠ i, P v j ↔ P (f a) j)
    (column : ∀ b ≠ a, Q w b ↔ Q (g i) b) (b : A) (j : I) :
    P (update f a v b) j ↔ Q (update g i w j) b := by
  by_cases isA : b = a <;> by_cases isI : j = i
  · simpa [isA, isI] using here
  · simpa [isA, isI] using (row j isI).trans (holds a j)
  · simpa [isA, isI] using (holds b i).trans (column b isA).symm
  · simpa [isA, isI] using holds b j

end Updates

namespace Filing

open Function List

variable {Kind Item : Type}

structure Filed (lists : Kind -> List Item) (place : Item -> Option Kind) : Prop where
  nodup : ∀ kind, (lists kind).Nodup
  agrees : ∀ item kind, item ∈ lists kind ↔ place item = some kind

namespace Filed

variable {lists : Kind -> List Item} {place : Item -> Option Kind}

theorem empty : Filed (fun _ : Kind => ([] : List Item)) (fun _ => none) where
  nodup _ := List.nodup_nil
  agrees := by simp

variable (filed : Filed lists place)

include filed

theorem absent {item : Item} (unfiled : place item = none) (kind : Kind) :
    item ∉ lists kind := by
  rw [filed.agrees, unfiled]
  simp

theorem take [DecidableEq Item] (item : Item) :
    Filed (fun kind => (lists kind).erase item) (update place item none) where
  nodup kind := (filed.nodup kind).erase item
  agrees other kind := by
    rw [(filed.nodup kind).mem_erase_iff, filed.agrees]
    by_cases same : other = item
    · subst same
      simp
    · simp [same]

variable {longer shorter : List Item}

theorem put [DecidableEq Kind] [DecidableEq Item] (kind : Kind) (item : Item) (unfiled : place item = none)
    (added : longer.Perm (item :: lists kind)) :
    Filed (update lists kind longer) (update place item (some kind)) where
  nodup other := by
    by_cases same : other = kind
    · subst same
      rw [update_self]
      exact added.nodup_iff.2 (nodup_cons.2 ⟨filed.absent unfiled other, filed.nodup other⟩)
    · rw [update_of_ne same]
      exact filed.nodup other
  agrees other target := by
    by_cases sameItem : other = item
    · subst sameItem
      by_cases sameKind : target = kind
      · subst sameKind
        simp [added.mem_iff]
      · simpa [sameKind, Ne.symm sameKind] using filed.absent unfiled target
    · by_cases sameKind : target = kind
      · subst sameKind
        simp [added.mem_iff, sameItem, filed.agrees]
      · simp [sameKind, sameItem, filed.agrees]

theorem drop [DecidableEq Kind] [DecidableEq Item] (kind : Kind) (item : Item)
    (removed : (lists kind).Perm (item :: shorter)) : Filed (update lists kind shorter) (update place item none) := by
  have nodup := removed.nodup_iff.1 (filed.nodup kind)
  rw [nodup_cons] at nodup
  have here : place item = some kind := (filed.agrees item kind).1 (removed.mem_iff.2 mem_cons_self)
  constructor
  case nodup =>
    intro other
    by_cases same : other = kind
    · subst same
      rw [update_self]
      exact nodup.2
    · rw [update_of_ne same]
      exact filed.nodup other
  case agrees =>
    intro other target
    by_cases sameItem : other = item
    · subst sameItem
      by_cases sameKind : target = kind
      · subst sameKind
        simpa using nodup.1
      · rw [update_of_ne sameKind, filed.agrees, here]
        simpa using Ne.symm sameKind
    · rw [update_of_ne sameItem, ← filed.agrees]
      by_cases sameKind : target = kind
      · subst sameKind
        simp [removed.mem_iff, sameItem]
      · rw [update_of_ne sameKind]

theorem move [DecidableEq Kind] [DecidableEq Item] {source target : Kind} (item : Item) (apart : target ≠ source)
    (removed : (lists source).Perm (item :: shorter)) (added : longer.Perm (item :: lists target)) :
    Filed (update (update lists source shorter) target longer)
      (update place item (some target)) := by
  have longerStill : longer.Perm (item :: update lists source shorter target) := by
    rwa [update_of_ne apart]
  have put := (filed.drop source item removed).put target item (update_self ..) longerStill
  rwa [update_idem] at put

theorem card [Fintype Kind] [DecidableEq Kind] [DecidableEq Item] (items : Finset Item)
    (inside : ∀ kind, ∀ item ∈ lists kind, item ∈ items) :
    items.card = (items.filter fun item => place item = none).card + ∑ kind, (lists kind).length := by
  have everywhere : (items : Set Item).MapsTo place ((Finset.univ : Finset (Option Kind)) : Set (Option Kind)) := by
    simp [Set.MapsTo]
  have fibers := Finset.card_eq_sum_card_fiberwise everywhere
  rw [fibers, Fintype.sum_option]
  congr 1
  refine Finset.sum_congr rfl fun kind _ => ?_
  rw [← toFinset_card_of_nodup (filed.nodup kind)]
  congr 1
  ext item
  simp only [Finset.mem_filter, mem_toFinset, filed.agrees]
  constructor
  · exact fun both => both.2
  · exact fun here => ⟨inside kind item ((filed.agrees item kind).2 here), here⟩

end Filed

structure Exclusive (lists : Kind -> List Item) : Prop where
  nodup : ∀ kind, (lists kind).Nodup
  single : ∀ {kind other item}, item ∈ lists kind -> item ∈ lists other -> kind = other

def Somewhere (lists : Kind -> List Item) (item : Item) : Prop := ∃ kind, item ∈ lists kind

variable [DecidableEq Kind] {lists : Kind -> List Item} {kind : Kind} {item other : Item} {rest : List Item}

theorem mem_push {target : Kind} : other ∈ update lists kind (item :: lists kind) target ↔
    (target = kind ∧ other = item) ∨ other ∈ lists target := by
  by_cases same : target = kind
  · subst same
    simp
  · simp [same]

theorem somewhere_push : Somewhere (update lists kind (item :: lists kind)) other ↔
    other = item ∨ Somewhere lists other := by
  constructor
  · rintro ⟨target, member⟩
    rcases mem_push.1 member with ⟨-, same⟩ | old
    · exact Or.inl same
    · exact Or.inr ⟨target, old⟩
  · rintro (same | ⟨target, old⟩)
    · exact ⟨kind, mem_push.2 (Or.inl ⟨rfl, same⟩)⟩
    · exact ⟨target, mem_push.2 (Or.inr old)⟩

variable (exclusive : Exclusive lists)

include exclusive

theorem Exclusive.push (kind : Kind) (absent : ¬ Somewhere lists item) :
    Exclusive (update lists kind (item :: lists kind)) where
  nodup target := by
    by_cases same : target = kind
    · subst same
      rw [update_self]
      exact nodup_cons.2 ⟨fun member => absent ⟨_, member⟩, exclusive.nodup target⟩
    · rw [update_of_ne same]
      exact exclusive.nodup target
  single {first second thing} here there := by
    rcases mem_push.1 here with ⟨at_, new⟩ | old
    · rcases mem_push.1 there with ⟨too, -⟩ | older
      · rw [at_, too]
      · exact absurd ⟨_, new ▸ older⟩ absent
    · rcases mem_push.1 there with ⟨-, new⟩ | older
      · exact absurd ⟨_, new ▸ old⟩ absent
      · exact exclusive.single old older

theorem Exclusive.mem_pop (here : lists kind = item :: rest) {target : Kind} :
    other ∈ update lists kind rest target ↔ other ≠ item ∧ other ∈ lists target := by
  have nodup := exclusive.nodup kind
  rw [here, nodup_cons] at nodup
  have first : item ∈ lists kind := by rw [here]; exact mem_cons_self
  by_cases same : target = kind
  · subst same
    rw [update_self, here, mem_cons]
    constructor
    · exact fun member => ⟨fun equal => nodup.1 (equal ▸ member), Or.inr member⟩
    · exact fun both => both.2.resolve_left both.1
  · rw [update_of_ne same]
    constructor
    · exact fun member => ⟨fun equal => same (exclusive.single (equal ▸ member) first), member⟩
    · exact fun both => both.2

theorem Exclusive.somewhere_pop (here : lists kind = item :: rest) :
    Somewhere (update lists kind rest) other ↔ other ≠ item ∧ Somewhere lists other := by
  simp [Somewhere, exclusive.mem_pop here]

theorem Exclusive.pop (here : lists kind = item :: rest) :
    Exclusive (update lists kind rest) where
  nodup target := by
    by_cases same : target = kind
    · subst same
      rw [update_self]
      have nodup := exclusive.nodup target
      rw [here] at nodup
      exact nodup.of_cons
    · rw [update_of_ne same]
      exact exclusive.nodup target
  single one two := exclusive.single ((exclusive.mem_pop here).1 one).2 ((exclusive.mem_pop here).1 two).2

def move (lists : Kind -> List Item) (source target : Kind) (item : Item) (rest : List Item) : Kind -> List Item :=
  update (update lists source rest) target (item :: update lists source rest target)

theorem Exclusive.move (target : Kind) (here : lists kind = item :: rest) :
    Exclusive (move lists kind target item rest) := by
  refine (exclusive.pop here).push target ?_
  rw [exclusive.somewhere_pop here]
  exact fun both => both.1 rfl

theorem Exclusive.somewhere_move (target : Kind) (here : lists kind = item :: rest) :
    Somewhere (Filing.move lists kind target item rest) other ↔ Somewhere lists other := by
  rw [Filing.move, somewhere_push, exclusive.somewhere_pop here]
  by_cases same : other = item
  · subst same
    exact ⟨fun _ => ⟨kind, by rw [here]; exact mem_cons_self⟩, fun _ => Or.inl rfl⟩
  · simp [same]

end Filing
