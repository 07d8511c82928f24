import JinyKernel.Tarfs.Scan

namespace JinyKernel.Tarfs

open List Run

structure Volume where
  device : Nat -> UInt8
  deviceSize : Nat
  extentSizeArg : Nat
  mntPoint : Bytes
  dummyPrefix : Bytes
  members : List Bytes
  small : deviceSize < 2 ^ 31
  extent : extentSizeArg < 2 ^ 62
  archive : Archive (initTarfs device deviceSize extentSizeArg mntPoint dummyPrefix) 0 members

def Volume.fs (volume : Volume) : TarFs :=
  initTarfs volume.device volume.deviceSize volume.extentSizeArg volume.mntPoint volume.dummyPrefix

def Volume.Start (volume : Volume) (fs : TarFs) : Prop := scanDeviceForfiles volume.fs = some fs

inductive Event where
  | create (driver : Driver) (filename : Bytes) (directory : Bool)
  | write (driver : Driver) (filename buf : Bytes) (len offset : Int)
  | remove (driver : Driver) (filename : Bytes)

def step (fs : TarFs) : Event -> Option TarFs
  | .create driver filename directory => (createNewFile fs driver filename directory).map Prod.snd
  | .write driver filename buf len offset => some (writeFileContents fs driver filename buf len offset).2
  | .remove driver filename => some (remove fs driver filename).2

def Allowed (fs : TarFs) : Event -> Prop
  | .create driver _ _ => driver.Honest
  | .write driver filename _ len offset => driver.Honest ∧ (findFile fs filename).isSome ∧
      (-2 ^ 31 ≤ len ∧ len < 2 ^ 31) ∧ (-2 ^ 31 ≤ offset ∧ offset < 2 ^ 31)
  | .remove driver filename => driver.Honest ∧ (findFile fs filename).isSome

def Current (fs : TarFs) : Event -> Prop
  | .create _ _ _ => fs.files.length < maxTarFiles
  | .write _ filename _ _ _ => ∀ i file, findFile fs filename = some (i, file) -> file.regularFile = true
  | .remove _ filename => ∀ i file, findFile fs filename = some (i, file) -> file.regularFile = true

theorem step_spec {fs : TarFs} (inv : FsInv fs) {event : Event} (allowed : Allowed fs event)
    (current : Current fs event) : ∃ next, step fs event = some next ∧ FsInv next := by
  cases event with
  | create driver filename directory =>
    obtain ⟨made, next, created, after, -⟩ := createNewFile_spec inv driver filename directory current
    exact ⟨next, by simp [step, created], after⟩
  | write driver filename buf len offset =>
    exact ⟨_, rfl, writeFileContents_inv inv allowed.1 buf allowed.2.2.1 allowed.2.2.2 current⟩
  | remove driver filename =>
    refine ⟨_, rfl, ?_⟩
    rw [remove]
    cases found : findFile fs filename with
    | none => exact inv
    | some target =>
      obtain ⟨i, file⟩ := target
      exact removeFile_inv inv driver (findFile_spec found).2 (current i file found)

theorem cielLength_blocks (length : Nat) : blkSize ∣ cielLength length := by
  rw [cielLength]
  split_ifs
  · rw [wrap, blkSize]
    omega
  · exact Nat.dvd_mul_left _ _

theorem Volume.scanned (volume : Volume) (room : (entryHeaders volume.fs volume.members).length < maxTarFiles)
    (linked : NoLinkedDummy volume.fs volume.members) :
    ∃ fs, scanDeviceForfiles volume.fs = some fs ∧ FsInv fs := by
  have bound := volume.extent
  refine scanDeviceForfiles_spec volume.archive volume.small rfl (cielLength_blocks _) ?_ room linked
  change cielLength volume.extentSizeArg < 2 ^ 63
  rw [cielLength_eq (by omega)]
  simp only [roundUp, blkSize]
  omega

theorem FsInv.disjoint {fs : TarFs} (inv : FsInv fs) :
    (fs.files.tail.filter fun file => file.type != lfLink).Pairwise (fun left right =>
      left.place.finish ≤ right.place.start ∨ right.place.finish ≤ left.place.start) := by
  have apart := pairwise_map.1 inv.table.packed.apart
  rw [pairwise_filter]
  refine apart.imp fun {left right} pair notLink notLink' => ?_
  have plain (file : TarFile) (kept : (file.type != lfLink) = true) :
      (file.place.start, file.place.finish) ∈ file.place.extent := by
    have isPlain : (file.type == lfLink) = false := by simpa [bne] using kept
    simp [Place.extent, TarFile.place, isPlain]
  have clear := pair _ (plain left notLink) _ (plain right notLink')
  simpa only [Reserve.Clear] using clear

theorem reachable_extents_disjoint (volume : Volume)
    (room : (entryHeaders volume.fs volume.members).length < maxTarFiles)
    (linked : NoLinkedDummy volume.fs volume.members) :
    (∃ fs, scanDeviceForfiles volume.fs = some fs) ∧ ∀ fs,
      Reachable volume.Start step (fun fs event => Allowed fs event ∧ Current fs event) fs ->
      (fs.files.tail.filter fun file => file.type != lfLink).Pairwise (fun left right =>
        left.place.finish ≤ right.place.start ∨ right.place.finish ≤ left.place.start) ∧
      (∀ file ∈ fs.files.tail, file.type ≠ lfLink ->
        blkSize ≤ file.deviceOffset ∧ file.place.finish ≤ fs.filesystemSize) ∧
      fs.filesystemSize ≤ fs.deviceSize ∧
      ∀ event, Allowed fs event -> Current fs event -> (step fs event).isSome := by
  obtain ⟨start, scanned, first⟩ := volume.scanned room linked
  refine ⟨⟨start, scanned⟩, fun fs reached => ?_⟩
  obtain ⟨inv, progress⟩ := Reachable.progress
    (fun other same => Option.some.inj (scanned.symm.trans same) ▸ first)
    (fun current event before allowed => step_spec before allowed.1 allowed.2) reached
  refine ⟨inv.disjoint, ?_, inv.size, fun event allowed current => progress event ⟨allowed, current⟩⟩
  intro file member plain
  have notLink : file.place.link = false := by simpa [TarFile.place] using plain
  have listed : file.place ∈ fs.places := mem_map_of_mem member
  refine ⟨(inv.table.sound _ listed).header notLink, ?_⟩
  exact inv.table.packed.inside _ listed (file.place.start, file.place.finish) (by simp [Place.extent, notLink])

def emptyVolume : Volume where
  device := fun _ => 0
  deviceSize := 4096
  extentSizeArg := 0
  mntPoint := [47]
  dummyPrefix := [46, 100]
  members := []
  small := by decide
  extent := by decide
  archive := ⟨by decide, fun _ _ => rfl⟩

def honestDriver : Driver := fun _ len => max len 0

theorem honestDriver_honest : honestDriver.Honest := fun _ _ => Int.le_refl _

def nameA : Bytes := [47, 97]
def nameB : Bytes := [47, 98]

def removedTwice : Option (TarFs × TarFs × TarFs) := do
  let start ← scanDeviceForfiles emptyVolume.fs
  let one ← step start (.create honestDriver nameA false)
  let two ← step one (.create honestDriver nameB false)
  let three ← step two (.remove honestDriver nameA)
  let four ← step three (.remove honestDriver nameA)
  some (two, three, four)

theorem removedTwice_reaches {two three four : TarFs} (run : removedTwice = some (two, three, four))
    (found : (findFile two nameA).isSome) (found' : (findFile three nameA).isSome) :
    Reachable emptyVolume.Start step Allowed four := by
  simp only [removedTwice, bind_iff] at run
  obtain ⟨start, scanned, one, first, second, made, third, gone, fourth, again, same⟩ := run
  cases same
  have may (fs : TarFs) (name : Bytes) : Allowed fs (.create honestDriver name false) := honestDriver_honest
  have remove (fs : TarFs) (found : (findFile fs nameA).isSome) : Allowed fs (.remove honestDriver nameA) :=
    ⟨honestDriver_honest, found⟩
  have begun : Reachable emptyVolume.Start step Allowed start := .start scanned
  have both := (begun.next (may start nameA) first).next (may one nameB) made
  exact (both.next (remove _ found) gone).next (remove _ found') again

theorem removed_twice_overlaps : ∃ fs, Reachable emptyVolume.Start step Allowed fs ∧
      ¬ (fs.files.tail.filter fun file => file.type != lfLink).Pairwise (fun left right =>
        left.place.finish ≤ right.place.start ∨ right.place.finish ≤ left.place.start) := by
  have outcome : removedTwice.map (fun states => ((findFile states.1 nameA).isSome, (findFile states.2.1 nameA).isSome,
      (states.2.2.files.tail.filter fun file => file.type != lfLink).map fun file =>
        (file.place.start, file.place.finish))) = some (true, true, [(0, 1536), (1024, 2048)]) := by decide +kernel
  obtain ⟨⟨two, three, four⟩, run, seen⟩ := Option.map_eq_some_iff.1 outcome
  simp only [Prod.mk.injEq] at seen
  obtain ⟨found, found', extents⟩ := seen
  refine ⟨four, removedTwice_reaches run found found', fun apart => ?_⟩
  have pairs : [(0, 1536), (1024, 2048)].Pairwise fun left right : Nat × Nat =>
      left.2 ≤ right.1 ∨ right.2 ≤ left.1 := by
    rw [← extents, pairwise_map]
    exact apart
  revert pairs
  decide

theorem emptyVolume_create {start fs : TarFs} {name : Bytes} {directory : Bool}
    (scanned : scanDeviceForfiles emptyVolume.fs = some start)
    (made : step start (.create honestDriver name directory) = some fs) :
    Reachable emptyVolume.Start step (fun fs event => Allowed fs event ∧ Current fs event) fs := by
  have few : (scanDeviceForfiles emptyVolume.fs).map (fun start => start.files.length) = some 1 := by decide +kernel
  rw [scanned, Option.map_some, Option.some.injEq] at few
  refine .next (.start scanned) ?_ made
  exact ⟨honestDriver_honest, by rw [Current, few]; decide⟩

theorem reachable_extents_disjoint_twoFiles : ∃ start one fs, scanDeviceForfiles emptyVolume.fs = some start ∧
      step start (.create honestDriver nameA false) = some one ∧ step one (.create honestDriver nameB false) = some fs ∧
      (fs.files.tail.filter fun file => file.type != lfLink).length = 2 ∧
      (fs.files.tail.filter fun file => file.type != lfLink).Pairwise (fun left right =>
        left.place.finish ≤ right.place.start ∨ right.place.finish ≤ left.place.start) ∧
      ∀ file ∈ fs.files.tail, file.type ≠ lfLink ->
        blkSize ≤ file.deviceOffset ∧ file.place.finish ≤ fs.filesystemSize := by
  have outcome : (do
      let start ← scanDeviceForfiles emptyVolume.fs
      let one ← step start (.create honestDriver nameA false)
      let fs ← step one (.create honestDriver nameB false)
      some (one.files.length, (fs.files.tail.filter fun file => file.type != lfLink).length)) = some (2, 2) := by
    decide +kernel
  simp only [bind_iff, Option.some.injEq, Prod.mk.injEq] at outcome
  obtain ⟨start, scanned, one, made, fs, second, few, length⟩ := outcome
  have may : Allowed one (.create honestDriver nameB false) ∧ Current one (.create honestDriver nameB false) :=
    ⟨honestDriver_honest, by rw [Current, few]; decide⟩
  have linked : NoLinkedDummy emptyVolume.fs emptyVolume.members := fun front link dummies same =>
    absurd same (by simp [emptyVolume])
  obtain ⟨apart, inside, -⟩ := (reachable_extents_disjoint emptyVolume (by decide) linked).2 fs
    ((emptyVolume_create scanned made).next may second)
  exact ⟨start, one, fs, scanned, made, second, length, apart, inside⟩

end JinyKernel.Tarfs
