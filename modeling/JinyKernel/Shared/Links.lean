import Mathlib.Data.List.Chain

namespace Links

open List

variable {Node : Type} {next other : Node -> Node} {more : Node -> Bool} {first : Node} {nodes rest : List Node}

def Linked (next : Node -> Node) (nodes : List Node) : Prop := nodes.IsChain fun node behind => next node = behind

def walk (next : Node -> Node) : Nat -> Node -> List Node
  | 0, _ => []
  | n + 1, start => start :: walk next n (next start)

theorem Linked.congr (linked : Linked next nodes) (same : ∀ node ∈ nodes.dropLast, other node = next node) :
    Linked other nodes := by
  induction nodes with
  | nil => exact .nil
  | cons node rest ih =>
    cases rest with
    | nil => exact .singleton node
    | cons behind rest =>
      rw [Linked, isChain_cons_cons] at linked ⊢
      exact ⟨(same node mem_cons_self).trans linked.1,
        ih linked.2 fun node among => same node (mem_cons_of_mem _ among)⟩

theorem Linked.walk_take (linked : Linked next (first :: rest)) {n : Nat} (within : n ≤ rest.length + 1) :
    walk next n first = (first :: rest).take n := by
  induction n generalizing first rest with
  | zero => rfl
  | succ n ih =>
    rw [walk, take_succ_cons]
    cases rest with
    | nil =>
      have zero : n = 0 := by simpa using within
      rw [zero]
      rfl
    | cons behind rest =>
      rw [Linked, isChain_cons_cons] at linked
      rw [linked.1, ih linked.2 (by simpa using within)]

theorem Linked.iterate (linked : Linked next (first :: rest)) {n : Nat} (within : n < rest.length + 1) :
    (first :: rest)[n]? = some (next^[n] first) := by
  induction n generalizing first rest with
  | zero => rfl
  | succ n ih =>
    cases rest with
    | nil => simp at within
    | cons behind rest =>
      rw [Linked, isChain_cons_cons] at linked
      rw [getElem?_cons_succ, ih linked.2 (by simpa using within), Function.iterate_succ_apply, linked.1]

def Threaded (more : Node -> Bool) (next : Node -> Node) : List Node -> Prop
  | [] => False
  | [node] => more node = false
  | node :: behind :: rest => more node = true ∧ next node = behind ∧ Threaded more next (behind :: rest)

def follow (more : Node -> Bool) (next : Node -> Node) : Nat -> Node -> List Node
  | 0, _ => []
  | n + 1, start => start :: if more start then follow more next n (next start) else []

theorem Threaded.ne_nil (threaded : Threaded more next nodes) : nodes ≠ [] := by
  rintro rfl
  exact threaded

theorem Threaded.follow (threaded : Threaded more next (first :: rest)) {n : Nat} (enough : rest.length + 1 ≤ n) :
    follow more next n first = first :: rest := by
  induction rest generalizing first n with
  | nil =>
    obtain ⟨n, rfl⟩ := Nat.exists_eq_add_of_le' enough
    have last : more first = false := threaded
    simp [Links.follow, last]
  | cons behind rest ih =>
    obtain ⟨n, rfl⟩ := Nat.exists_eq_add_of_le' (Nat.le_trans (Nat.le_add_left 1 _) enough)
    obtain ⟨goes, link, later⟩ := threaded
    rw [Links.follow, if_pos goes, link, ih later (by simp at enough ⊢; omega)]

theorem Threaded.linked (threaded : Threaded more next nodes) : Linked next nodes := by
  induction nodes with
  | nil => exact .nil
  | cons node rest ih =>
    cases rest with
    | nil => exact .singleton node
    | cons behind rest => exact isChain_cons_cons.2 ⟨threaded.2.1, ih threaded.2.2⟩

theorem Threaded.congr {more' : Node -> Bool} (threaded : Threaded more next nodes)
    (flags : ∀ node ∈ nodes, more' node = more node) (links : ∀ node ∈ nodes.dropLast, other node = next node) :
    Threaded more' other nodes := by
  induction nodes with
  | nil => exact threaded
  | cons node rest ih =>
    cases rest with
    | nil => exact (flags node mem_cons_self).trans threaded
    | cons behind rest =>
      rw [dropLast_cons_cons] at links
      exact ⟨(flags node mem_cons_self).trans threaded.1, (links node mem_cons_self).trans threaded.2.1,
        ih threaded.2.2 (fun node among => flags node (mem_cons_of_mem _ among))
          fun node among => links node (mem_cons_of_mem _ among)⟩

theorem Linked.threaded (linked : Linked next nodes) (distinct : nodes.Nodup) {last : Node}
    (ends : nodes.getLast? = some last) (clear : more last = false) (set : ∀ node ∈ nodes, node ≠ last ->
      more node = true) :
    Threaded more next nodes := by
  induction nodes with
  | nil => cases ends
  | cons node rest ih =>
    cases rest with
    | nil =>
      rw [getLast?_singleton, Option.some.injEq] at ends
      rw [Threaded, ends]
      exact clear
    | cons behind rest =>
      rw [Linked, isChain_cons_cons] at linked
      rw [getLast?_cons_cons] at ends
      obtain ⟨fresh, distinct⟩ := nodup_cons.1 distinct
      have among : last ∈ behind :: rest := mem_of_getLast? ends
      refine ⟨set node mem_cons_self fun same => fresh (same ▸ among), linked.1, ?_⟩
      exact ih linked.2 distinct ends fun node among => set node (mem_cons_of_mem _ among)

end Links
