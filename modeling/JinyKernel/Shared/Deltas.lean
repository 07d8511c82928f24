import Mathlib.Data.List.Sort
import Mathlib.Tactic.Abel

namespace Deltas

open List

variable {Item Key Time : Type} [AddCommGroup Time]

def encode (key : Item -> Key) (time : Item -> Time) : Time -> List Item -> List (Key × Time)
  | _, [] => []
  | base, item :: rest => (key item, time item - base) :: encode key time (time item) rest

def sums : Time -> List (Key × Time) -> List Time
  | _, [] => []
  | base, (_, gap) :: rest => (base + gap) :: sums (base + gap) rest

variable {key : Item -> Key} {time : Item -> Time}

@[simp] theorem encode_nil (base : Time) : encode key time base [] = [] := rfl

@[simp] theorem encode_cons (base : Time) (item : Item) (rest : List Item) :
    encode key time base (item :: rest) = (key item, time item - base) :: encode key time (time item) rest := rfl

theorem encode_keys (base : Time) (items : List Item) :
    (encode key time base items).map Prod.fst = items.map key := by
  induction items generalizing base with
  | nil => rfl
  | cons item rest ih => simp [ih]

theorem sums_encode (origin base : Time) (items : List Item) :
    sums (base - origin) (encode key time base items) = items.map fun item => time item - origin := by
  induction items generalizing base with
  | nil => rfl
  | cons item rest ih =>
    have next : base - origin + (time item - base) = time item - origin := by abel
    simp [sums, ih]

-- Every gap but the first is one between two items in order.
theorem encode_gaps {before : Item -> Item -> Prop} {first : Item} {items : List Item}
    (ordered : (first :: items).Pairwise before) :
    ∀ entry ∈ encode key time (time first) items,
      ∃ a ∈ first :: items, ∃ b ∈ items, before a b ∧ entry.2 = time b - time a := by
  induction items generalizing first with
  | nil => simp
  | cons item rest ih =>
    rw [pairwise_cons] at ordered
    intro entry among
    rcases mem_cons.1 among with rfl | later
    · exact ⟨first, by simp, item, by simp, ordered.1 item (by simp), rfl⟩
    · obtain ⟨a, fromHere, b, behind, gap⟩ := ih ordered.2 entry later
      exact ⟨a, mem_cons_of_mem _ fromHere, b, mem_cons_of_mem _ behind, gap⟩

theorem pairwise_orderedInsert {before later : Item -> Item -> Prop} [DecidableRel later] {new : Item}
    {items : List Item} (ordered : items.Pairwise before)
    (precedes : ∀ item ∈ items, later new item -> before new item)
    (follows : ∀ item ∈ items, ¬ later new item -> before item new)
    (upward : ∀ a b, before a b -> later new a -> later new b) :
    (items.orderedInsert later new).Pairwise before := by
  induction items with
  | nil => simp
  | cons item rest ih =>
    rw [pairwise_cons] at ordered
    rw [orderedInsert_cons]
    split_ifs with here
    · -- everything behind the first later item is later as well
      refine pairwise_cons.2 ⟨fun other among => ?_, pairwise_cons.2 ordered⟩
      rcases mem_cons.1 among with rfl | behind
      · exact precedes other (by simp) here
      · exact precedes other among (upward item other (ordered.1 other behind) here)
    refine pairwise_cons.2 ⟨fun other among => ?_, ?_⟩
    · rcases mem_orderedInsert _ |>.1 among with rfl | behind
      · exact follows item (by simp) here
      · exact ordered.1 other behind
    · exact ih ordered.2 (fun other among => precedes other (by simp [among]))
        (fun other among => follows other (by simp [among]))

end Deltas
