import JinyKernel.Paging.Model
import JinyKernel.Shared.Radix

namespace JinyKernel.Paging

open List Radix

def tableFormat (entries : List Nat) : Format where
  width := 512
  read level _ entry :=
    if entry = 0 then .empty
    else if level = kernelPagesLevel ∧ checkKernelPtableEntry entries (physAddr entry) ∨ isLeaf level entry then .leaf
    else .link (frameOf entry)

-- The sweep of `[addr, addr + len)` takes out the leaf of `level` over the address.
def swept (addr len level va : Nat) : Bool := decide
  (addr / maxEntry level ≤ va / maxEntry level ∧ va / maxEntry 4 < (addr + len) / maxEntry 4 ∧
    (level = 1 -> tableIndex va 1 < (addr + len - va / maxEntry 2 * maxEntry 2) / pageSize % 2 ^ 32))

variable {level va : Nat}

theorem swept_iff {addr len : Nat} : swept addr len level va = true ↔
    addr / maxEntry level ≤ va / maxEntry level ∧ va / maxEntry 4 < (addr + len) / maxEntry 4 ∧
      (level = 1 -> tableIndex va 1 < (addr + len - va / maxEntry 2 * maxEntry 2) / pageSize % 2 ^ 32) :=
  decide_eq_true_iff

theorem maxEntry_pos (level : Nat) : 0 < maxEntry level := Nat.mul_pos (by decide) (Nat.pow_pos (by decide))

theorem maxEntry_succ (low : 1 ≤ level) : maxEntry (level + 1) = 512 * maxEntry level := by
  obtain ⟨below, rfl⟩ := Nat.exists_eq_add_of_le' low
  simp only [maxEntry, Nat.add_sub_cancel]
  ring

theorem div_maxEntry_succ (low : 1 ≤ level) (x : Nat) : x / maxEntry (level + 1) = x / maxEntry level / 512 := by
  rw [maxEntry_succ low, Nat.mul_comm, Nat.div_div_eq_div_mul]

theorem maxEntry_four (low : 1 ≤ level) (high : level ≤ 4) : maxEntry 4 = maxEntry level * 512 ^ (4 - level) := by
  obtain rfl | rfl | rfl | rfl : level = 1 ∨ level = 2 ∨ level = 3 ∨ level = 4 := by omega
  all_goals rfl

def userLimit : Nat := 0x800000000000

section

variable {addr len level : Nat}

theorem clearBounds_eq {start : Nat} (user : addr + len ≤ userLimit) (before : start * maxEntry level ≤ addr + len) :
    clearBounds level addr len (start * maxEntry level) =
      (if addr / maxEntry level < start then 0 else (addr / maxEntry level - start) % 2 ^ 32,
        min 512 (((addr + len) / maxEntry level - start) % 2 ^ 32)) := by
  have rest : (if addr < start * maxEntry level then wrapSub len (start * maxEntry level - addr)
      else wrap (addr - start * maxEntry level + len)) = addr + len - start * maxEntry level := by
    generalize start * maxEntry level = first at before
    simp only [userLimit] at user
    split_ifs with later
    · rw [wrapSub_eq (by omega) (by omega)]
      omega
    · rw [wrap, Nat.mod_eq_of_lt (by omega)]
      omega
  simp only [clearBounds, rest]
  simp only [Nat.div_lt_iff_lt_mul (maxEntry_pos level), Nat.mul_comm start (maxEntry level), Nat.sub_mul_div]

section

variable (low : 1 ≤ level)

include low

theorem swept_entries (high : level ≤ 4) :
    swept addr len level va = true ↔ addr / maxEntry level ≤ va / maxEntry level ∧
      va / maxEntry level / 512 ^ (4 - level) < (addr + len) / maxEntry level / 512 ^ (4 - level) ∧
      (level = 1 -> va / maxEntry level % 512 <
        ((addr + len) / maxEntry level - va / maxEntry level / 512 * 512) % 2 ^ 32) := by
  rw [swept_iff, maxEntry_four low high, ← Nat.div_div_eq_div_mul, ← Nat.div_div_eq_div_mul]
  refine and_congr_right fun _ => and_congr_right fun _ => forall_congr' fun one => ?_
  subst one
  have table : va / maxEntry 2 * maxEntry 2 = maxEntry 1 * (va / maxEntry 1 / 512 * 512) := by
    rw [maxEntry_succ (Nat.le_refl 1), Nat.mul_comm 512, ← Nat.div_div_eq_div_mul]
    ring
  rw [table, tableIndex, ← maxEntry]
  change _ < (addr + len - _) / maxEntry 1 % _ ↔ _
  rw [Nat.sub_mul_div]

theorem swept_entry {position : Nat} (high : level ≤ 4) :
    swept addr len level (position * maxEntry level) = true ↔ addr / maxEntry level ≤ position ∧
      position / 512 ^ (4 - level) < (addr + len) / maxEntry level / 512 ^ (4 - level) ∧
      (level = 1 -> position % 512 < ((addr + len) / maxEntry level - position / 512 * 512) % 2 ^ 32) := by
  rw [swept_entries low high, Nat.mul_div_cancel _ (maxEntry_pos level)]

theorem swept_congr {wa : Nat} (high : level ≤ 4) (same : va / maxEntry level = wa / maxEntry level) :
    swept addr len level va = swept addr len level wa := by
  rw [Bool.eq_iff_iff, swept_entries low high, swept_entries low high, same]

theorem swept_above {above : Nat} (higher : level ≤ above) (high : above ≤ 4)
    (reached : swept addr len level va = true) : swept addr len above va = true := by
  rcases Nat.eq_or_lt_of_le higher with rfl | strict
  · exact reached
  have wider : maxEntry above = maxEntry level * 512 ^ (above - level) := by
    simp only [maxEntry, Nat.mul_assoc, ← Nat.pow_add]
    congr 2
    omega
  rw [swept_iff] at reached ⊢
  refine ⟨?_, reached.2.1, fun one => by omega⟩
  rw [wider, ← Nat.div_div_eq_div_mul, ← Nat.div_div_eq_div_mul]
  exact Nat.div_le_div_right reached.1

theorem swept_empty (high : level ≤ 4) : swept addr 0 level va = false := by
  rw [← Bool.not_eq_true]
  intro reached
  have top := swept_iff.1 (swept_above low high (Nat.le_refl 4) reached)
  exact absurd top.2.1 (Nat.not_lt.2 top.1)

theorem swept_start {position : Nat} (high : level ≤ 4)
    (reached : swept addr len level (position * maxEntry level) = true) : position * maxEntry level ≤ addr + len := by
  have below := Nat.lt_of_div_lt_div ((swept_entry low high).1 reached).2.1
  exact Nat.mul_le_of_le_div _ _ _ below.le

end

theorem entries_bound (level : Nat) (user : addr + len ≤ userLimit) :
    (addr + len) / maxEntry level ≤ 2 ^ 35 ∧ (2 ≤ level -> (addr + len) / maxEntry level < 2 ^ 32) := by
  constructor
  · exact (Nat.div_le_div user (Nat.le_mul_of_pos_right 4096 (Nat.pow_pos (by decide))) (by decide)).trans (by decide)
  intro high
  have wide : 4096 * 512 ≤ maxEntry level := Nat.mul_le_mul_left 4096
    (Nat.le_self_pow (by omega) 512)
  exact (Nat.div_le_div user wide (by decide)).trans_lt (by decide)

def Called (addr len level position : Nat) : Prop :=
  level = 4 ∧ position = 0 ∨
    1 ≤ level ∧ level < 4 ∧ swept addr len (level + 1) (position * maxEntry (level + 1)) = true

theorem clearBounds_iff {position index : Nat} (user : addr + len ≤ userLimit) (inside : index < 512)
    (called : Called addr len level position) :
    (clearBounds level addr len (position * maxEntry (level + 1))).1 ≤ index ∧
        index < (clearBounds level addr len (position * maxEntry (level + 1))).2 ↔
      swept addr len level ((position * 512 + index) * maxEntry level) = true := by
  obtain ⟨low, most⟩ : 1 ≤ level ∧ level ≤ 4 := by rcases called with ⟨top, -⟩ | ⟨low, high, -⟩ <;> omega
  obtain ⟨bound, small⟩ := entries_bound level user
  have start : position * maxEntry (level + 1) = position * 512 * maxEntry level := by
    rw [maxEntry_succ low, Nat.mul_assoc]
  have order : addr / maxEntry level ≤ (addr + len) / maxEntry level := Nat.div_le_div_right (by omega)
  rw [swept_entry low most]
  rcases called with ⟨top, rfl⟩ | ⟨-, high, reached⟩
  · rw [start, clearBounds_eq user (by simp)]
    have few := small (by omega)
    simp only [show 4 - level = 0 by omega, Nat.zero_mul, Nat.zero_add, Nat.pow_zero, Nat.div_one, Nat.sub_zero]
    generalize addr / maxEntry level = first at order ⊢
    generalize (addr + len) / maxEntry level = limit at order few ⊢
    split_ifs <;> omega
  rw [swept_entry (by omega) (by omega), div_maxEntry_succ low, div_maxEntry_succ low] at reached
  obtain ⟨entered, below, -⟩ := reached
  -- The table is swept to its end.
  have whole := Nat.lt_of_div_lt_div below
  have inRange : position * 512 * maxEntry level ≤ addr + len := by
    refine Nat.mul_le_of_le_div _ _ _ ?_
    omega
  have shift (x : Nat) : x / 512 ^ (4 - level) = x / 512 / 512 ^ (4 - (level + 1)) := by
    rw [Nat.div_div_eq_div_mul, show 4 - level = 4 - (level + 1) + 1 by omega, Nat.pow_succ, Nat.mul_comm]
  have here : (position * 512 + index) / 512 = position := by omega
  rw [start, clearBounds_eq user inRange, shift, shift, here]
  generalize 512 ^ (4 - (level + 1)) = width at *
  generalize addr / maxEntry level = first at *
  generalize (addr + len) / maxEntry level = limit at *
  simp only [below, true_and]
  by_cases one : level = 1
  · simp only [one, forall_true_left]
    split_ifs <;> omega
  · have few := small (by omega)
    simp only [one, false_imp_iff, and_true]
    split_ifs <;> omega

end

section

variable (pc : PcRegion) (addr len : Nat)

def freedFrames (s : State) : List Nat := s.freed.flatMap fun block => List.range' block.1 (2 ^ block.2)

def sweptFrames (leaves : List Leaf) : List Nat :=
  (leaves.filter fun leaf => leaf.level ≠ kernelPagesLevel && !pc.isPcPaddr (physAddr leaf.entry) &&
    swept addr len leaf.level (leaf.position * maxEntry leaf.level)).flatMap fun leaf => pagesOf leaf.level leaf.entry

def spared (va : Nat) (leaf : Nat × Nat) : Bool := !swept addr len leaf.1 va

variable (format : Format)

structure Separate (mem : Nat -> Nat -> Nat) (level table : Nat) (indices : List Nat) : Prop where
  outside : ∀ index ∈ indices, table ∉ tablesBelow format mem level table index
  distinct : ∀ index ∈ indices, (tablesBelow format mem level table index).Nodup
  nonzero : ∀ index ∈ indices, 0 ∉ tablesBelow format mem level table index
  apart : ∀ index ∈ indices, ∀ other ∈ indices, index ≠ other ->
    ∀ frame ∈ tablesBelow format mem level table index,
      frame ∉ tablesBelow format mem level table other

structure PartCleared (level table position : Nat) (indices : List Nat) (s t : State) : Prop where
  known : t.kernelLevel3Entries = s.kernelLevel3Entries
  frame : ∀ frame, frame ≠ table ->
    (∀ index ∈ indices, frame ∉ tablesBelow format s.mem level table index) ->
    t.mem frame = s.mem frame
  row : ∀ index, index ∉ indices -> t.mem table index = s.mem table index
  within : ∀ index ∈ indices, tablesBelow format t.mem level table index ⊆
    tablesBelow format s.mem level table index
  leaf : ∀ index ∈ indices, ∀ va, va / maxEntry (level + 1) = position * 512 + index ->
    leafBelow format t.mem (tableIndex va) level table index =
      (leafBelow format s.mem (tableIndex va) level table index).filter (spared addr len va)
  freed : ∀ frame, (∀ index ∈ indices, frame ∉ tablesBelow format s.mem level table index) ->
    (freedFrames t).count frame = (freedFrames s).count frame + (sweptFrames pc addr len
      (indices.flatMap (leavesBelow format s.mem level table position))).count frame

structure TableCleared (level table position : Nat) (s t : State) (deleted : Bool) : Prop where
  known : t.kernelLevel3Entries = s.kernelLevel3Entries
  frame : ∀ frame, frame ∉ tables format s.mem level table -> t.mem frame = s.mem frame
  within : tables format t.mem level table ⊆ tables format s.mem level table
  leaf : ∀ va, va / maxEntry (level + 1) = position ->
    leafAt format t.mem (tableIndex va) level table =
      (leafAt format s.mem (tableIndex va) level table).filter (spared addr len va)
  empty : deleted = true -> ∀ index < 512, t.mem table index = 0
  freed : ∀ frame, frame ∉ tables format s.mem level table ->
    (freedFrames t).count frame = (freedFrames s).count frame +
      (sweptFrames pc addr len (leaves format s.mem level table position)).count frame

def ClearSpec (entries : List Nat) (level : Nat) : Prop :=
  ∀ table position s, s.kernelLevel3Entries = entries -> (tables (tableFormat entries) s.mem level table).Nodup ->
    0 ∉ tables (tableFormat entries) s.mem level table -> Called addr len level position ->
    TableCleared pc addr len (tableFormat entries) level table position s
      (clearPagetable pc addr len level table (position * maxEntry (level + 1)) s).2
      (clearPagetable pc addr len level table (position * maxEntry (level + 1)) s).1

end

section

variable {pc : PcRegion} {addr len : Nat} {format : Format} {level table position : Nat} {s t u : State}

theorem sweptFrames_append (left right : List Leaf) :
    sweptFrames pc addr len (left ++ right) = sweptFrames pc addr len left ++ sweptFrames pc addr len right := by
  simp [sweptFrames]

theorem PartCleared.nil : PartCleared pc addr len format level table position [] s s where
  known := rfl
  frame _ _ _ := rfl
  row _ _ := rfl
  within := by simp
  leaf := by simp
  freed := by simp [sweptFrames]

theorem PartCleared.spares {other : Nat} {all indices : List Nat}
    (cleared : PartCleared pc addr len format level table position indices s t)
    (separate : Separate format s.mem level table all) (part : indices ⊆ all) (there : other ∈ all)
    (absent : other ∉ indices) : t.mem table other = s.mem table other ∧
      ∀ frame ∈ tablesBelow format s.mem level table other, t.mem frame = s.mem frame := by
  refine ⟨cleared.row other absent, fun frame member => cleared.frame frame ?_ fun index listed => ?_⟩
  · rintro rfl
    exact separate.outside other there member
  · exact separate.apart other there index (part listed) (fun same => absent (same ▸ listed)) frame member

theorem PartCleared.cons {index : Nat} {rest : List Nat} (wide : ∀ va level, tableIndex va level < format.width)
    (absent : index ∉ rest)
    (separate : Separate format s.mem level table (index :: rest))
    (first : PartCleared pc addr len format level table position [index] s u)
    (others : PartCleared pc addr len format level table position rest u t) :
    PartCleared pc addr len format level table position (index :: rest) s t := by
  have spares (other : Nat) (member : other ∈ rest) := first.spares separate (by simp)
    (mem_cons_of_mem _ member) (by grind)
  have tablesSame (other : Nat) (member : other ∈ rest) :
      tablesBelow format u.mem level table other =
        tablesBelow format s.mem level table other :=
    tablesBelow_congr (spares other member).1 (spares other member).2
  -- The later words do not reach below `index`.
  have word := others.row index absent
  have kept : ∀ frame ∈ tablesBelow format u.mem level table index, t.mem frame = u.mem frame := by
    intro frame member
    have old := first.within index (mem_singleton_self _) member
    refine others.frame frame ?_ fun other listed => ?_
    · rintro rfl
      exact separate.outside index mem_cons_self old
    · rw [tablesSame other listed]
      exact separate.apart index mem_cons_self other (mem_cons_of_mem _ listed)
        (fun same => absent (same ▸ listed)) frame old
  constructor
  case known => exact others.known.trans first.known
  case frame =>
    intro frame outside missing
    rw [forall_mem_cons] at missing
    rw [others.frame frame outside (fun other listed => by rw [tablesSame other listed]; exact missing.2 other listed),
      first.frame frame outside (by simpa using missing.1)]
  case row =>
    intro other missing
    rw [mem_cons, not_or] at missing
    rw [others.row other missing.2, first.row other (by simpa using missing.1)]
  case within =>
    rw [forall_mem_cons]
    constructor
    · rw [tablesBelow_congr word kept]
      exact first.within index (mem_singleton_self _)
    · intro other listed
      rw [← tablesSame other listed]
      exact others.within other listed
  case leaf =>
    rw [forall_mem_cons]
    constructor
    · intro va place
      rw [leafBelow_congr word kept (wide va)]
      exact first.leaf index (mem_singleton_self _) va place
    · intro other listed va place
      rw [others.leaf other listed va place,
        leafBelow_congr (spares other listed).1 (spares other listed).2 (wide va)]
  case freed =>
    intro frame missing
    rw [forall_mem_cons] at missing
    have same : rest.flatMap (leavesBelow format u.mem level table position) =
        rest.flatMap (leavesBelow format s.mem level table position) :=
      flatMap_congr fun other listed => leavesBelow_congr (spares other listed).1 (spares other listed).2 _
    rw [others.freed frame (fun other listed => by rw [tablesSame other listed]; exact missing.2 other listed),
      first.freed frame (by simpa using missing.1), same, flatMap_singleton, flatMap_cons,
      sweptFrames_append, count_append, Nat.add_assoc]

end

section

variable {pc : PcRegion} {addr len : Nat} {entries : List Nat} {level table position index : Nat} {s t : State}

theorem read_blank (entries : List Nat) (level index : Nat) : (tableFormat entries).read level index 0 = .empty := by
  simp [tableFormat]

theorem freedFrames_put (s : State) (frame order : Nat) :
    freedFrames (putFreePages s frame order) = freedFrames s ++ List.range' frame (2 ^ order) := by
  simp [freedFrames, putFreePages]

theorem clear_leaf (reads : (tableFormat entries).read (level + 1) index (s.mem table index) = .leaf)
    (low : level + 1 ≤ 4) (reached : swept addr len (level + 1) ((position * 512 + index) * maxEntry (level + 1)) = true)
    (known : t.kernelLevel3Entries = s.kernelLevel3Entries) (same : t.mem = s.mem)
    (freed : freedFrames t = freedFrames s ++ sweptFrames pc addr len
      [{ level := level + 1, position := position * 512 + index, entry := s.mem table index }]) :
    PartCleared pc addr len (tableFormat entries) level table position [index] s (t.write table index 0) := by
  constructor
  case known => exact known
  case frame =>
    intro frame outside _
    rw [State.write_row outside, same]
  case row =>
    intro other differ
    rw [State.write_word_ne (by simpa using differ), same]
  case within =>
    simp [tablesBelow, read_blank]
  case leaf =>
    intro other single va place
    rw [mem_singleton.1 single] at place ⊢
    have here : swept addr len (level + 1) va = true := by
      rw [← reached]
      refine swept_congr (by omega) low ?_
      rw [place, Nat.mul_div_cancel _ (maxEntry_pos _)]
    simp [leafBelow, read_blank, reads, Option.filter_some, spared, here]
  case freed =>
    intro frame _
    have leaves : leavesBelow (tableFormat entries) s.mem level table position index =
        [{ level := level + 1, position := position * 512 + index, entry := s.mem table index }] := by
      simp only [leavesBelow, reads]
      rfl
    rw [flatMap_singleton, leaves, ← count_append, ← freed]
    rfl

theorem clear_link {below : Nat} {deleted : Bool}
    (reads : (tableFormat entries).read (level + 1) index (s.mem table index) = .link below)
    (separate : Separate (tableFormat entries) s.mem level table [index])
    (cleared : TableCleared pc addr len (tableFormat entries) level below (position * 512 + index) s t deleted) :
    PartCleared pc addr len (tableFormat entries) level table position [index] s
      (if deleted then t.write table index 0 else t) := by
  have tables := tablesBelow_link reads
  have outside := separate.outside index (mem_singleton_self _)
  rw [tables] at outside
  have row := cleared.frame table outside
  have before (va : Nat) : leafBelow (tableFormat entries) s.mem (tableIndex va) level table index =
      leafAt (tableFormat entries) s.mem (tableIndex va) level below := by
    simp [leafBelow, reads]
  constructor
  case known => split <;> exact cleared.known
  case frame =>
    intro frame differ missing
    rw [← cleared.frame frame (tables ▸ missing index (mem_singleton_self _))]
    split
    next => exact State.write_row differ
    next => rfl
  case row =>
    intro other differ
    rw [← row]
    split
    next => exact State.write_word_ne (by simpa using differ)
    next => rfl
  case within =>
    intro word single
    rw [mem_singleton.1 single, tables]
    split
    next => simp [tablesBelow, read_blank]
    next =>
      rw [tablesBelow_link (by rw [row]; exact reads)]
      exact cleared.within
  case leaf =>
    intro word single va place
    rw [mem_singleton.1 single] at place ⊢
    rw [before, ← cleared.leaf va place]
    split
    next emptied =>
      have gone : leafAt (tableFormat entries) t.mem (tableIndex va) level below = none :=
        leafAt_blank (tableIndex_lt va) fun deeper word inside => by
          rw [cleared.empty emptied word inside]
          exact read_blank entries deeper word
      simp [leafBelow, read_blank, gone]
    next => simp only [leafBelow, row, reads]
  case freed =>
    intro frame missing
    have leaves : leavesBelow (tableFormat entries) s.mem level table position index =
        leaves (tableFormat entries) s.mem level below (position * 512 + index) := by
      simp only [leavesBelow, reads]
      rfl
    rw [flatMap_singleton, leaves, ← cleared.freed frame (tables ▸ missing index (mem_singleton_self _))]
    split <;> rfl

theorem clearEntry_spec (user : addr + len ≤ userLimit) (spec : ClearSpec pc addr len entries level)
    (known : s.kernelLevel3Entries = entries) (separate : Separate (tableFormat entries) s.mem level table [index])
    (high : level + 1 ≤ 4)
    (reached : swept addr len (level + 1) ((position * 512 + index) * maxEntry (level + 1)) = true) :
    PartCleared pc addr len (tableFormat entries) level table position [index] s
      (clearEntry pc (clearPagetable pc addr len level) (level + 1) table (position * maxEntry (level + 2)) s index) := by
  have start : wrap (position * maxEntry (level + 2) + index * maxEntry (level + 1)) =
      (position * 512 + index) * maxEntry (level + 1) := by
    have sum : position * maxEntry (level + 2) + index * maxEntry (level + 1) =
        (position * 512 + index) * maxEntry (level + 1) := by
      rw [maxEntry_succ (Nat.succ_le_succ (Nat.zero_le level))]
      ring
    have small := (swept_start (by omega) high reached).trans user
    rw [sum, wrap, Nat.mod_eq_of_lt (small.trans_lt (by decide))]
  simp only [clearEntry, known, start]
  by_cases empty : s.mem table index = 0
  · rw [if_pos empty]
    have reads := read_blank entries (level + 1) index
    rw [← empty] at reads
    refine ⟨rfl, fun _ _ _ => rfl, fun _ _ => rfl, fun _ _ => List.Subset.refl _, ?_, ?_⟩
    · intro word single va _
      rw [mem_singleton.1 single]
      simp [leafBelow, reads]
    · intro frame _
      simp [leavesBelow, reads, sweptFrames]
  rw [if_neg empty]
  by_cases kernel : level + 1 = kernelPagesLevel ∧ checkKernelPtableEntry entries (physAddr (s.mem table index)) = true
  · rw [if_pos kernel]
    refine clear_leaf (by simp [tableFormat, empty, kernel]) high reached rfl rfl ?_
    simp [sweptFrames, kernel.1]
  rw [if_neg kernel]
  cases leaf : isLeaf (level + 1) (s.mem table index) with
  | true =>
    have reads : (tableFormat entries).read (level + 1) index (s.mem table index) = .leaf := by
      simp [tableFormat, empty, leaf]
    cases cached : pc.isPcPaddr (physAddr (s.mem table index)) with
    | true =>
      exact clear_leaf reads high reached rfl rfl (by simp [sweptFrames, cached])
    | false =>
      refine clear_leaf reads high reached rfl rfl ?_
      -- The order of the block is the size of the page.
      have size : 2 ^ (if level + 1 = 1 then 0 else 9) = 512 ^ level ∧ level + 1 ≠ kernelPagesLevel := by
        simp only [isLeaf, Bool.or_eq_true, Bool.and_eq_true, decide_eq_true_eq] at leaf
        obtain rfl | rfl : level = 0 ∨ level = 1 := by omega
        all_goals decide
      rw [freedFrames_put, size.1]
      simp [sweptFrames, cached, reached, size.2, pagesOf]
  | false =>
    have reads : (tableFormat entries).read (level + 1) index (s.mem table index) =
        .link (frameOf (s.mem table index)) := by
      simp [tableFormat, empty, kernel, leaf]
    have deep : 1 ≤ level := by
      by_contra none
      obtain rfl : level = 0 := by omega
      simp [isLeaf] at leaf
    have distinct := separate.distinct index (mem_singleton_self _)
    have nonzero := separate.nonzero index (mem_singleton_self _)
    rw [tablesBelow_link reads] at distinct nonzero
    exact clear_link reads separate (spec _ _ s known distinct nonzero (.inr ⟨deep, by omega, reached⟩))

end

variable {pc : PcRegion} {addr len level table position index : Nat} {entries indices : List Nat} {format : Format}
  {s t : State} {mem : Nat -> Nat -> Nat}

theorem Separate.part {rest : List Nat} (separate : Separate format mem level table indices) (part : rest ⊆ indices) :
    Separate format mem level table rest :=
  ⟨fun index member => separate.outside index (part member), fun index member => separate.distinct index (part member),
    fun index member => separate.nonzero index (part member),
    fun index here other there => separate.apart index (part here) other (part there)⟩

theorem Separate.congr {later : Nat -> Nat -> Nat} (separate : Separate format mem level table indices)
    (same : ∀ index ∈ indices, tablesBelow format later level table index = tablesBelow format mem level table index) :
    Separate format later level table indices where
  outside index member := same index member ▸ separate.outside index member
  distinct index member := same index member ▸ separate.distinct index member
  nonzero index member := same index member ▸ separate.nonzero index member
  apart index here other there := same index here ▸ same other there ▸ separate.apart index here other there

theorem leavesBelow_position {leaf : Leaf}
    (member : leaf ∈ leavesBelow (tableFormat entries) mem level table position index) :
    1 ≤ leaf.level ∧ leaf.level ≤ level + 1 ∧
      leaf.position * maxEntry leaf.level / maxEntry (level + 1) = position * 512 + index := by
  induction level using Nat.strong_induction_on generalizing table position index with
  | _ level ih =>
    simp only [leavesBelow] at member
    split at member
    next => cases member
    next =>
      rw [mem_singleton] at member
      subst member
      exact ⟨by simp, Nat.le_refl _, Nat.mul_div_cancel _ (maxEntry_pos _)⟩
    next below _ =>
      cases level with
      | zero => cases member
      | succ level =>
        obtain ⟨word, listed, inside⟩ := mem_flatMap.1 (leaves_succ .. ▸ member)
        obtain ⟨low, deep, place⟩ := ih level (Nat.lt_succ_self _) inside
        have small : word < 512 := mem_range.1 listed
        refine ⟨low, by omega, ?_⟩
        rw [div_maxEntry_succ (by omega), place]
        change ((position * 512 + index) * 512 + word) / 512 = _
        omega

section

variable (high : level + 1 ≤ 4)

include high

theorem missed_below {below va : Nat}
    (missed : swept addr len (level + 1) ((position * 512 + index) * maxEntry (level + 1)) = false) (low : 1 ≤ below)
    (deep : below ≤ level + 1) (place : va / maxEntry (level + 1) = position * 512 + index) :
    swept addr len below va = false := by
  rw [← Bool.not_eq_true]
  intro reached
  have above := swept_above low deep high reached
  rw [swept_congr (by omega) high (place.trans (Nat.mul_div_cancel _ (maxEntry_pos _)).symm), missed] at above
  cases above

-- A word that the loop passes over keeps its tree.
theorem PartCleared.skip (inside : index < 512)
    (missed : swept addr len (level + 1) ((position * 512 + index) * maxEntry (level + 1)) = false) :
    PartCleared pc addr len (tableFormat entries) level table position [index] s s := by
  refine ⟨rfl, fun _ _ _ => rfl, fun _ _ => rfl, fun _ _ => Subset.refl _, fun word single va place => ?_,
    fun frame _ => ?_⟩
  · rw [mem_singleton.1 single] at place ⊢
    have here : tableIndex va (level + 1) = index := by
      rw [tableIndex, ← maxEntry, place]
      omega
    cases found : leafBelow (tableFormat entries) s.mem (tableIndex va) level table index with
    | none => rfl
    | some leaf =>
      rw [← here, ← leafAt_succ] at found
      obtain ⟨low, deep⟩ := leafAt_level found
      simp [Option.filter_some, spared, missed_below high missed low deep place]
  · have nothing : sweptFrames pc addr len (leavesBelow (tableFormat entries) s.mem level table position index) = [] := by
      rw [sweptFrames, filter_eq_nil_iff.2, flatMap_nil]
      intro leaf member
      obtain ⟨low, deep, place⟩ := leavesBelow_position member
      simp [missed_below high missed low deep place]
    rw [flatMap_singleton, nothing, count_nil, Nat.add_zero]

theorem clearEntries_spec (position : Nat) (user : addr + len ≤ userLimit) (spec : ClearSpec pc addr len entries level)
    (distinct : indices.Nodup) (inside : ∀ index ∈ indices, index < 512) (known : s.kernelLevel3Entries = entries)
    (separate : Separate (tableFormat entries) s.mem level table indices) :
    PartCleared pc addr len (tableFormat entries) level table position indices s (indices.foldl (fun s index =>
      if swept addr len (level + 1) ((position * 512 + index) * maxEntry (level + 1)) then
        clearEntry pc (clearPagetable pc addr len level) (level + 1) table (position * maxEntry (level + 1 + 1)) s index
      else s) s) := by
  induction indices generalizing s with
  | nil => exact .nil
  | cons index rest ih =>
    rw [nodup_cons] at distinct
    rw [forall_mem_cons] at inside
    rw [foldl_cons]
    have first : PartCleared pc addr len (tableFormat entries) level table position [index] s
        (if swept addr len (level + 1) ((position * 512 + index) * maxEntry (level + 1)) then
          clearEntry pc (clearPagetable pc addr len level) (level + 1) table (position * maxEntry (level + 1 + 1)) s index
        else s) := by
      split
      next reached => exact clearEntry_spec user spec known (separate.part (by simp)) high reached
      next missed => exact .skip high inside.1 (by simpa using missed)
    have spares (other : Nat) (member : other ∈ rest) := first.spares separate (by simp)
      (mem_cons_of_mem _ member) (by grind)
    refine .cons tableIndex_lt distinct.1 separate first (ih distinct.2 inside.2 (first.known.trans known) ?_)
    exact (separate.part (subset_cons_self ..)).congr fun other member =>
      tablesBelow_congr (spares other member).1 (spares other member).2

end

theorem separate_range (distinct : (tables format mem (level + 1) table).Nodup)
    (nonzero : 0 ∉ tables format mem (level + 1) table) :
    Separate format mem level table (List.range format.width) := by
  rw [tables_succ, nodup_cons, nodup_flatMap] at distinct
  rw [tables_succ, mem_cons, not_or] at nonzero
  obtain ⟨outside, each, apart⟩ := distinct
  have below : ∀ index ∈ List.range format.width, ∀ frame ∈ tablesBelow format mem level table index,
      frame ∈ (List.range format.width).flatMap (tablesBelow format mem level table) :=
    fun index member frame inside => mem_flatMap.2 ⟨index, member, inside⟩
  have symmetric : Std.Symm (Function.onFun List.Disjoint (tablesBelow format mem level table)) :=
    ⟨fun _ _ => List.Disjoint.symm⟩
  exact ⟨fun index member inside => outside (below index member _ inside), each,
    fun index member inside => nonzero.2 (below index member _ inside),
    fun index here other there differ frame member again => apart.forall here there differ member again⟩

theorem PartCleared.whole {deleted : Bool}
    (part : PartCleared pc addr len (tableFormat entries) level table position (List.range 512) s t)
    (empty : deleted = true -> ∀ index < 512, t.mem table index = 0) :
    TableCleared pc addr len (tableFormat entries) (level + 1) table position s t deleted := by
  have outside : ∀ frame, frame ∉ tables (tableFormat entries) s.mem (level + 1) table -> frame ≠ table ∧
      ∀ index ∈ List.range 512, frame ∉ tablesBelow (tableFormat entries) s.mem level table index := by
    intro frame missing
    rw [tables_succ, mem_cons, not_or] at missing
    exact ⟨missing.1, fun index listed member => missing.2 (mem_flatMap.2 ⟨index, listed, member⟩)⟩
  constructor
  case known => exact part.known
  case frame => exact fun frame missing => part.frame frame (outside frame missing).1 (outside frame missing).2
  case within =>
    intro frame member
    rw [tables_succ, mem_cons, mem_flatMap] at member ⊢
    exact member.imp_right fun ⟨index, listed, below⟩ => ⟨index, listed, part.within index listed below⟩
  case leaf =>
    intro va place
    refine part.leaf _ (mem_range.2 (tableIndex_lt va (level + 1))) va ?_
    rw [div_maxEntry_succ (by omega)] at place
    rw [tableIndex, ← maxEntry]
    omega
  case empty => exact empty
  case freed => exact fun frame missing => part.freed frame (outside frame missing).2

theorem TableCleared.put {deleted : Bool} (cleared : TableCleared pc addr len (tableFormat entries)
    (level + 1) table position s t deleted) :
    TableCleared pc addr len (tableFormat entries) (level + 1) table position s (putFreePages t table 0) deleted where
  __ := cleared
  freed frame missing := by
    have other : frame ≠ table := fun same => missing (same ▸ table_mem ..)
    rw [freedFrames_put, count_append, cleared.freed frame missing]
    simp [other.symm]

theorem clearPagetable_spec (pc : PcRegion) {addr len : Nat} (user : addr + len ≤ userLimit)
    (entries : List Nat) (level : Nat) : ClearSpec pc addr len entries level := by
  induction level with
  | zero =>
    intro table position s _ _ _ called
    rcases called with ⟨top, -⟩ | ⟨low, -⟩ <;> omega
  | succ level ih =>
    intro table position s known distinct nonzero called
    have high : level + 1 ≤ 4 := by
      rcases called with ⟨top, -⟩ | ⟨-, high, -⟩ <;> omega
    have present : table ≠ 0 := fun zero => nonzero (zero ▸ table_mem ..)
    have part := clearEntries_spec high position user ih nodup_range (fun index => mem_range.1) known
      (separate_range distinct nonzero)
    rw [clearPagetable]
    by_cases nothing : len = 0
    · subst nothing
      simp only [swept_empty (Nat.le_add_left 1 level) high, Bool.false_eq_true, if_false, foldl_fixed] at part
      rw [if_pos (.inr rfl)]
      exact part.whole (by simp)
    rw [if_neg (by omega)]
    have bounds (index : Nat) (inside : index < 512) := clearBounds_iff user inside called
    have small : (clearBounds (level + 1) addr len (position * maxEntry (level + 1 + 1))).2 ≤ 512 := Nat.min_le_left ..
    generalize clearBounds (level + 1) addr len (position * maxEntry (level + 1 + 1)) = range at bounds small
    obtain ⟨first, maxI⟩ := range
    have swept_range : List.range' first (maxI - first) = (List.range 512).filter fun index =>
        swept addr len (level + 1) ((position * 512 + index) * maxEntry (level + 1)) := by
      refine Pairwise.eq_of_mem_iff pairwise_lt_range' (pairwise_lt_range.filter _) fun index => ?_
      rw [mem_range'_1, mem_filter, mem_range]
      constructor
      · intro inside
        have limit : index < 512 := by omega
        exact ⟨limit, (bounds index limit).1 (by omega)⟩
      · rintro ⟨limit, reached⟩
        have inside := (bounds index limit).2 reached
        omega
    dsimp only
    rw [swept_range, foldl_filter]
    split_ifs with blank
    · exact (part.whole fun _ index inside => by simpa using all_eq_true.1 blank index (mem_range.2 inside)).put
    · dsimp only
      exact part.whole (by simp)

end JinyKernel.Paging
