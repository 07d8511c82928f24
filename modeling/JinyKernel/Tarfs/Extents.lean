import JinyKernel.Shared.Reserve
import JinyKernel.Tarfs.Model

namespace JinyKernel.Tarfs

open List Option

def roundUp (length : Nat) : Nat := (length + blkSize - 1) / blkSize * blkSize

structure Place where
  link : Bool
  regular : Bool
  offset : Nat
  length : Nat
  room : Nat

def TarFile.place (file : TarFile) : Place :=
  ⟨file.type == lfLink, file.regularFile, file.deviceOffset, file.length, file.dummyfileLen⟩

variable (place : Place)

def Place.start : Nat := place.offset - blkSize

def Place.finish : Nat :=
  (if place.regular then place.offset else place.offset - blkSize) + roundUp place.length + place.room

def Place.extent : Option (Nat × Nat) :=
  if place.link then none else some (place.start, place.finish)

structure Place.Sound (mark : Nat) : Prop where
  blocks : place.regular = true -> blkSize ∣ place.room
  below : place.regular = true -> place.offset + roundUp place.length + place.room ≤ mark
  header : place.link = false -> blkSize ≤ place.offset

structure Table (mark : Nat) (places : List Place) : Prop where
  packed : Reserve.Packed Place.extent mark places
  sound : ∀ place ∈ places, place.Sound mark

theorem cielLength_eq {length : Nat} (small : length < 2 ^ 63) : cielLength length = roundUp length := by
  rw [cielLength, roundUp]
  by_cases whole : length / blkSize * blkSize = length
  · rw [if_neg (not_not_intro whole)]
    simp only [blkSize] at *
    omega
  · rw [if_pos whole, wrap]
    simp only [blkSize] at *
    omega

variable {mark mark' : Nat} {places : List Place} {place : Place}

theorem Place.Sound.raise (sound : place.Sound mark) (higher : mark ≤ mark') : place.Sound mark' where
  __ := sound
  below regular := (sound.below regular).trans higher

theorem Table.raise (table : Table mark places) (higher : mark ≤ mark') : Table mark' places where
  packed := table.packed.raise higher
  sound place member := (table.sound place member).raise higher

variable {i : Nat} {old : Place}

theorem Table.set (table : Table mark places) (higher : mark ≤ mark') (here : places[i]? = some old)
    (sound : place.Sound mark')
    (grows : ∀ r' ∈ place.extent, ∃ r ∈ old.extent, r'.1 = r.1 ∧ r.2 ≤ r'.2 ∧ r'.2 ≤ mark' ∧
      (r'.2 = r.2 ∨ r.2 = mark)) : Table mark' (places.set i place) where
  packed := table.packed.set higher here grows
  sound other member := by
    rcases mem_or_eq_of_mem_set member with before | rfl
    · exact (table.sound other before).raise higher
    · exact sound

theorem Table.rewrite (table : Table mark places) (here : places[i]? = some old) (regular : old.regular = true)
    {length room : Nat} (blocks : blkSize ∣ room) (same : roundUp length + room = roundUp old.length + old.room) :
    Table mark (places.set i { old with length := length, room := room }) := by
  have sound := table.sound old (mem_of_getElem? here)
  refine table.set (Nat.le_refl mark) here ⟨fun _ => blocks, fun _ => ?_, sound.header⟩ fun r' owned' => ?_
  · have below := sound.below regular
    simp only
    omega
  refine ⟨r', ?_, rfl, Nat.le_refl _, ?_, .inl rfl⟩
  · simpa [Place.extent, Place.start, Place.finish, Nat.add_assoc, same] using owned'
  · apply table.packed.inside old (mem_of_getElem? here)
    simpa [Place.extent, Place.start, Place.finish, Nat.add_assoc, same] using owned'

theorem roundUp_zero : roundUp 0 = 0 := rfl

theorem le_roundUp (length : Nat) : length ≤ roundUp length := by
  simp only [roundUp, blkSize]
  omega

theorem Table.remove (table : Table mark places) (here : places[i]? = some old) (regular : old.regular = true) :
    Table mark (places.set i
      { old with regular := false, length := 0, room := old.room + roundUp old.length + blkSize }) := by
  have sound := table.sound old (mem_of_getElem? here)
  refine table.set (Nat.le_refl mark) here ⟨Bool.noConfusion, Bool.noConfusion, sound.header⟩ ?_
  intro r' owned'
  have same : r' ∈ old.extent := by
    cases link : old.link with
    | true => simp [Place.extent, link] at owned'
    | false =>
      have header := sound.header link
      simp only [Place.extent, link, Place.start, Place.finish, regular, roundUp_zero, Bool.false_eq_true, if_false,
        if_true, mem_def, some.injEq] at owned' ⊢
      rw [← owned', Prod.mk.injEq]
      refine ⟨rfl, ?_⟩
      omega
  exact ⟨r', same, rfl, Nat.le_refl _, table.packed.inside old (mem_of_getElem? here) r' same, .inl rfl⟩

theorem Table.grow (table : Table mark places) (higher : mark ≤ mark') (here : places[i]? = some old)
    (regular : old.regular = true) {room : Nat} (blocks : blkSize ∣ room) (wider : old.room ≤ room)
    (below : old.offset + roundUp old.length + room ≤ mark')
    (last : old.link = false -> old.offset + roundUp old.length + old.room = mark) :
    Table mark' (places.set i { old with room := room }) := by
  have sound := table.sound old (mem_of_getElem? here)
  refine table.set higher here ⟨fun _ => blocks, fun _ => below, sound.header⟩ fun r' owned' => ?_
  cases link : old.link with
  | true => simp [Place.extent, link] at owned'
  | false =>
    have ends := last link
    simp only [Place.extent, link, Place.start, Place.finish, regular, Bool.false_eq_true, if_false, if_true,
      mem_def, some.injEq] at owned'
    refine ⟨(old.start, old.finish), by simp [Place.extent, link], ?_⟩
    subst owned'
    simp only [Place.finish, regular, if_true]
    exact ⟨rfl, by omega, below, .inr ends⟩

theorem Table.append (table : Table mark places) (higher : mark ≤ mark') (sound : place.Sound mark')
    (behind : ∀ r ∈ place.extent, mark ≤ r.1 ∧ r.1 < r.2 ∧ r.2 ≤ mark') : Table mark' (places ++ [place]) where
  packed := table.packed.append higher behind
  sound other member := by
    rcases mem_append.1 member with before | only
    · exact (table.sound other before).raise higher
    · exact mem_singleton.1 only ▸ sound

end JinyKernel.Tarfs
