import JinyKernel.Ipc.Futex
import JinyKernel.Shared.Run

namespace JinyKernel.Ipc

open Option Run Function

theorem startIndex_lt (mm uaddr : Nat) : startIndex mm uaddr < maxFutexs := Int.tmod_lt_of_pos _ (by decide)

section

variable {table : Table} {state : State} {mm uaddr : Nat}

theorem probe_spec (test : Option Futex -> Bool) (left : Nat) {id : Int} (low : 0 ≤ id) (high : id < maxFutexs) :
    (∃ i < maxFutexs, test (table i) = true ∧ probe table test left id = some (some i)) ∨
      (∀ k < left, test (table ((id.toNat + k) % maxFutexs)) = false) ∧ probe table test left id = some none := by
  induction left generalizing id with
  | zero => exact .inr ⟨by simp, rfl⟩
  | succ left ih =>
    have next : (id + 1).tmod maxFutexs = (((id.toNat + 1) % maxFutexs : Nat) : Int) := by
      rw [Int.tmod_eq_emod_of_nonneg (by omega)]
      push_cast
      rw [Int.toNat_of_nonneg low]
    have inside : id.toNat < maxFutexs := by omega
    have later : (id.toNat + 1) % maxFutexs < maxFutexs := Nat.mod_lt _ (by decide)
    rw [probe, if_pos ⟨low, high⟩]
    split
    next passed => exact .inl ⟨_, inside, passed, rfl⟩
    next failed =>
      rw [next]
      refine (ih (Int.natCast_nonneg _) (Int.ofNat_lt.2 later)).imp_right fun missed => ⟨fun k within => ?_, missed.2⟩
      cases k with
      | zero => simpa [Nat.mod_eq_of_lt inside] using failed
      | succ k =>
        have passed := missed.1 k (by omega)
        rwa [Int.toNat_natCast, Nat.mod_add_mod, Nat.add_assoc, Nat.add_comm 1] at passed

theorem probe_outside (test : Option Futex -> Bool) (negative : ¬ 0 ≤ startIndex mm uaddr) :
    probe table test maxFutexs (startIndex mm uaddr) = none :=
  if_neg fun both => negative both.1

theorem pick_none (otherwise : Option (Option Futex × State)) : state.pick otherwise none = otherwise := rfl

def Holds (table : Table) (mm uaddr : Nat) (futex : Futex) : Prop :=
  ∃ i < maxFutexs, table i = some futex ∧ futex.mm = mm ∧ futex.uaddr = uaddr

theorem probe_cases (table : Table) (test : Option Futex -> Bool) (low : 0 ≤ startIndex mm uaddr) :
    (∃ i < maxFutexs, test (table i) = true ∧ probe table test maxFutexs (startIndex mm uaddr) = some (some i)) ∨
      (∀ i < maxFutexs, test (table i) = false) ∧ probe table test maxFutexs (startIndex mm uaddr) = some none := by
  refine (probe_spec test maxFutexs low (startIndex_lt mm uaddr)).imp_right fun missed => ⟨fun i within => ?_, missed.2⟩
  -- a whole round of the table comes to every slot
  have high := startIndex_lt mm uaddr
  have round := missed.1 ((i + maxFutexs - (startIndex mm uaddr).toNat) % maxFutexs) (Nat.mod_lt _ (by decide))
  rwa [Nat.add_mod_mod, Nat.add_sub_cancel' (by omega), Nat.add_mod_right, Nat.mod_eq_of_lt within] at round

theorem getFutex_cases (low : 0 ≤ startIndex mm uaddr) :
    (∃ futex, Holds state.table mm uaddr futex ∧ getFutex state mm uaddr = some (some futex, state)) ∨
    ((∀ futex, ¬ Holds state.table mm uaddr futex) ∧
      ((∃ i < maxFutexs, state.table i = none ∧ getFutex state mm uaddr =
          some (some ⟨state.created, mm, uaddr⟩,
            ⟨update state.table i (some ⟨state.created, mm, uaddr⟩), state.created + 1⟩)) ∨
        getFutex state mm uaddr = some (none, state))) := by
  have find := probe_cases state.table (fun slot => slot.any (Futex.belongs mm uaddr)) low
  rw [← findFutex] at find
  rcases find with ⟨i, within, passed, found⟩ | ⟨absent, missed⟩
  · obtain ⟨futex, here, belongs⟩ := holds_of_any passed
    refine .inl ⟨futex, ⟨i, within, here, belongs⟩, ?_⟩
    rw [getFutex, found, some_bind, State.pick, here]
  refine .inr ⟨?_, ?_⟩
  · rintro futex ⟨i, within, here, belongs⟩
    have failed := absent i within
    rw [here, any_some, Futex.belongs, decide_eq_false_iff_not] at failed
    exact failed belongs
  rw [getFutex, missed, bind_eq_bind, bind_some, pick_none, bind_some, pick_none, addFutex]
  rcases probe_cases state.table Option.isNone low with ⟨i, within, empty, found⟩ | ⟨-, full⟩
  · refine .inl ⟨i, within, isNone_iff_eq_none.1 empty, ?_⟩
    rw [found, some_bind, State.fill]
  · refine .inr ?_
    rw [full, some_bind, State.fill]

theorem getFutex_outside (negative : ¬ 0 ≤ startIndex mm uaddr) : getFutex state mm uaddr = none := by
  rw [getFutex, findFutex, probe_outside _ negative]
  rfl

end

structure System where
  state : State
  returned : Nat -> Nat -> Option Futex

inductive Event where
  | get (mm uaddr : Nat)
  | destroy (mm : Nat)

variable (system : System)

def System.record (mm uaddr : Nat) : Option Futex × State -> System
  | (some futex, state) =>
    ⟨state, update system.returned mm (update (system.returned mm) uaddr (some futex))⟩
  | (none, state) => ⟨state, system.returned⟩

def step : Event -> Option System
  | .get mm uaddr => (getFutex system.state mm uaddr).map (system.record mm uaddr)
  | .destroy mm => some ⟨destroyFutex system.state mm, update system.returned mm fun _ => none⟩

def Start : Prop := system = ⟨⟨fun _ => none, 0⟩, fun _ _ => none⟩

abbrev Reaches : Prop := Reachable Start step (fun _ _ => True) system

def Single (table : Table) : Prop :=
  ∀ i j futex other, i < maxFutexs -> j < maxFutexs -> table i = some futex -> table j = some other ->
    futex.mm = other.mm -> futex.uaddr = other.uaddr -> i = j

structure Consistent : Prop where
  single : Single system.state.table
  kept : ∀ mm uaddr futex, system.returned mm uaddr = some futex -> Holds system.state.table mm uaddr futex

variable {table : Table} {mm uaddr : Nat} {futex : Futex} {state : State}

theorem Single.unique (single : Single table) {other : Futex} (left : Holds table mm uaddr futex)
    (right : Holds table mm uaddr other) : futex = other := by
  obtain ⟨i, withinI, isI, mmI, uaddrI⟩ := left
  obtain ⟨j, withinJ, isJ, mmJ, uaddrJ⟩ := right
  obtain rfl := single i j futex other withinI withinJ isI isJ (mmI.trans mmJ.symm) (uaddrI.trans uaddrJ.symm)
  exact some.inj (isI.symm.trans isJ)

theorem Single.add (single : Single table) {i name : Nat} (fresh : ∀ futex, ¬ Holds table mm uaddr futex) :
    Single (update table i (some ⟨name, mm, uaddr⟩)) := by
  intro j k futex other withinJ withinK isJ isK sameMm sameUaddr
  by_cases hereJ : j = i
  · by_cases hereK : k = i
    · rw [hereJ, hereK]
    rw [hereJ, update_self] at isJ
    rw [update_of_ne hereK] at isK
    cases isJ
    exact absurd ⟨k, withinK, isK, sameMm.symm, sameUaddr.symm⟩ (fresh other)
  rw [update_of_ne hereJ] at isJ
  by_cases hereK : k = i
  · rw [hereK, update_self] at isK
    cases isK
    exact absurd ⟨j, withinJ, isJ, sameMm, sameUaddr⟩ (fresh futex)
  · rw [update_of_ne hereK] at isK
    exact single j k futex other withinJ withinK isJ isK sameMm sameUaddr

theorem Holds.add {i : Nat} {new : Futex} (holds : Holds table mm uaddr futex) (empty : table i = none) :
    Holds (update table i (some new)) mm uaddr futex := by
  obtain ⟨j, within, here, names⟩ := holds
  have apart : j ≠ i := by
    rintro rfl
    rw [empty] at here
    cases here
  exact ⟨j, within, by rw [update_of_ne apart, here], names⟩

theorem Holds.destroy {other : Nat} (holds : Holds state.table mm uaddr futex) (apart : mm ≠ other) :
    Holds (destroyFutex state other).table mm uaddr futex := by
  obtain ⟨j, within, here, sameMm, sameUaddr⟩ := holds
  refine ⟨j, within, ?_, sameMm, sameUaddr⟩
  simp only [destroyFutex, if_pos within, here, filter_some]
  exact if_pos (by simpa [sameMm] using apart)

theorem Single.destroy (single : Single state.table) (mm : Nat) : Single (destroyFutex state mm).table := by
  have old {i : Nat} {futex : Futex} (within : i < maxFutexs) (here : (destroyFutex state mm).table i = some futex) :
      state.table i = some futex := by
    simp only [destroyFutex, if_pos within] at here
    exact (filter_eq_some_iff.1 here).1
  intro i j futex other withinI withinJ isI isJ
  exact single i j futex other withinI withinJ (old withinI isI) (old withinJ isJ)

theorem Consistent.give {system : System} (consistent : Consistent system) (single : Single state.table)
    (held : Holds state.table mm uaddr futex)
    (kept : ∀ mm uaddr futex, Holds system.state.table mm uaddr futex -> Holds state.table mm uaddr futex) :
    Consistent (system.record mm uaddr (some futex, state)) := by
  refine ⟨single, fun mm' uaddr' other given => ?_⟩
  simp only [System.record] at given
  by_cases sameMm : mm' = mm
  · subst sameMm
    rw [update_self] at given
    by_cases sameUaddr : uaddr' = uaddr
    · subst sameUaddr
      rw [update_self] at given
      cases given
      exact held
    · rw [update_of_ne sameUaddr] at given
      exact kept _ _ _ (consistent.kept _ _ _ given)
  · rw [update_of_ne sameMm] at given
    exact kept _ _ _ (consistent.kept _ _ _ given)

theorem Consistent.step {system next : System} {event : Event} (consistent : Consistent system)
    (moved : step system event = some next) : Consistent next := by
  cases event with
  | get mm uaddr =>
    rw [Ipc.step] at moved
    obtain ⟨result, got, rfl⟩ := map_eq_some_iff.1 moved
    by_cases low : 0 ≤ startIndex mm uaddr
    · rcases getFutex_cases low with ⟨futex, held, found⟩ | ⟨fresh, ⟨i, within, empty, added⟩ | full⟩
      · cases got.symm.trans found
        exact consistent.give consistent.single held fun _ _ _ holds => holds
      · cases got.symm.trans added
        refine consistent.give (consistent.single.add fresh) ?_ fun _ _ _ holds => holds.add empty
        exact ⟨i, within, update_self .., rfl, rfl⟩
      · cases got.symm.trans full
        exact consistent
    · rw [getFutex_outside low] at got
      cases got
  | destroy mm =>
    cases moved
    refine ⟨consistent.single.destroy mm, fun mm' uaddr futex given => ?_⟩
    dsimp only at given
    by_cases same : mm' = mm
    · rw [same, update_self] at given
      cases given
    · rw [update_of_ne same] at given
      exact (consistent.kept _ _ _ given).destroy same

theorem futex_table_iff (system : System) (reached : Reaches system) :
    Single system.state.table ∧ ∀ mm uaddr,
      ((getFutex system.state mm uaddr).isSome ↔ 0 ≤ startIndex mm uaddr) ∧
      ∀ futex, system.returned mm uaddr = some futex -> 0 ≤ startIndex mm uaddr ->
        getFutex system.state mm uaddr = some (some futex, system.state) := by
  have consistent : Consistent system := by
    refine reached.invariant ?_ fun _ _ _ before _ => before.step
    rintro start rfl
    constructor
    · intro i j futex other withinI withinJ isI
      cases isI
    · intro mm uaddr futex given
      cases given
  refine ⟨consistent.single, fun mm uaddr => ⟨⟨fun inside => ?_, fun low => ?_⟩, fun futex given low => ?_⟩⟩
  · by_contra negative
    rw [getFutex_outside negative] at inside
    cases inside
  · rcases @getFutex_cases system.state mm uaddr low with ⟨futex, -, got⟩ | ⟨-, ⟨i, -, -, got⟩ | got⟩ <;> simp [got]
  have held := consistent.kept mm uaddr futex given
  rcases getFutex_cases low with ⟨other, holds, got⟩ | ⟨fresh, -⟩
  · rwa [consistent.single.unique holds held] at got
  · exact absurd held (fresh futex)

def someMm : Nat := 0xffffc90000100000

theorem futex_table_iff_two : ∃ system, Reaches system ∧ system.state.created = 2 ∧
    getFutex system.state someMm 0x4000 = some (some ⟨0, someMm, 0x4000⟩, system.state) := by
  have outcome : ([Event.get someMm 0x4000, .get someMm 0x8000].foldlM step ⟨⟨fun _ => none, 0⟩, fun _ _ => none⟩).any
      (fun system => system.state.created = 2 ∧ system.returned someMm 0x4000 = some ⟨0, someMm, 0x4000⟩) = true := by
    decide +kernel
  obtain ⟨system, ran, created, returned⟩ := holds_of_any outcome
  have reached : Reaches system := Reachable.foldlM (.start rfl) (fun _ _ _ => trivial) ran
  exact ⟨system, reached, created, ((futex_table_iff system reached).2 _ _).2 _ returned (by decide)⟩

theorem negative_index : ∃ system, Reaches system ∧ startIndex someMm 0x80004000 < 0 ∧
    getFutex system.state someMm 0x80004000 = none :=
  ⟨_, .start rfl, by decide, getFutex_outside (by decide)⟩

end JinyKernel.Ipc
