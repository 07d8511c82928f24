import JinyKernel.Tarfs.Orderly

namespace JinyKernel.Tarfs

open List Option Memory

section

variable {fs next : TarFs} {i : Nat} {file : TarFile} {filename : Bytes}

theorem getFile_congr (mount : next.mntPoint = fs.mntPoint) (names : next.files.map TarFile.str =
    fs.files.map TarFile.str)
    (filename : Bytes) : getFile next filename = getFile fs filename := by
  have search (wanted : Bytes) : next.files.findIdx? (fun file => file.str == wanted) =
      fs.files.findIdx? fun file => file.str == wanted := by
    have mapped (files : List TarFile) : (files.map TarFile.str).findIdx? (· == wanted) =
        files.findIdx? fun file => file.str == wanted := by
      rw [findIdx?_map]
      rfl
    rw [← mapped, ← mapped, names]
  simp only [getFile, regularisedFilename, prefixLen, mount, search]

variable {after other : TarFile} {n j : Nat}

theorem findFile_set (found : findFile fs filename = some (i, file)) (table : next.files = fs.files.set i after)
    (mount : next.mntPoint = fs.mntPoint) (name : after.str = file.str) :
    findFile next filename = some (i, after) := by
  obtain ⟨named, here⟩ := findFile_spec found
  obtain ⟨within, same⟩ := List.getElem?_eq_some_iff.1 here
  have names : next.files.map TarFile.str = fs.files.map TarFile.str := by
    rw [table, map_set, name, ← same, ← getElem_map TarFile.str (h := by simpa using within),
      set_getElem_self]
  have there : next.files[i]? = some after := by
    rw [table]
    exact getElem?_set_self within
  rw [findFile, getFile_congr mount names, named]
  simp [there]

theorem Orderly.length_small (orderly : Orderly fs) (among : file ∈ fs.files) : file.length < 2 ^ 31 := by
  obtain ⟨j, here⟩ := mem_iff_getElem?.1 among
  cases regular : file.regularFile with
  | false =>
    rw [orderly.cleared file among regular]
    decide
  | true =>
    obtain ⟨-, -, below⟩ := orderly.inv.bounds here regular
    have size := orderly.inv.size
    have small := orderly.inv.small
    simp only [roundUp, blkSize] at below
    omega

theorem readLoop_whole {start : Nat} (positive : 0 < n) (within : start + n ≤ fs.deviceSize)
    (small : fs.deviceSize < 2 ^ 31) :
    readLoop fs start n false (n + 1) 0 [] = ((n : Int), window fs.device start n) := by
  have first : readFromDevice fs (toInt (start + toUlong 0 : Nat)) ((n : Int) - 0).toNat =
      some (window fs.device start n) := by
    have origin : toInt (start + toUlong 0 : Nat) = start := by
      have zero : toUlong 0 = 0 := by decide
      rw [zero, Nat.add_zero, toInt_nat (by omega)]
    have inside : 0 ≤ (start : Int) ∧ (start : Int) + ((n : Int) - 0).toNat ≤ fs.deviceSize := by omega
    rw [origin, readFromDevice, if_pos inside]
    simp [window]
  have more : 0 < (n : Int) - 0 := by omega
  rw [readLoop, if_pos more, first]
  simp only [elim_some, Bool.false_eq_true, if_false, length_window, nil_append]
  cases n with
  | zero => exact absurd positive (by simp)
  | succ n => rw [readLoop, if_neg (by omega), Int.zero_add]

theorem readFileContents_eq (inv : FsInv fs) (found : findFile fs filename = some (i, file))
    (regular : file.regularFile = true) {offset : Nat} (positive : 0 < n) (within : offset + n ≤ file.length) :
    readFileContents fs filename n offset false = ((n : Int), ((contents fs file).drop offset).take n) := by
  obtain ⟨-, -, below⟩ := inv.bounds (findFile_spec found).2 regular
  have size := inv.size
  have small := inv.small
  have covers := le_roundUp file.length
  have place : toUlong (offset : Int) = offset := toUlong_nat (by omega)
  have total : toUlong (toInt ((offset : Int) + n)) = offset + n := by
    rw [← Nat.cast_add, toInt_nat (by omega), toUlong_nat (by omega)]
  have asked : (if file.length ≤ offset + n then toInt (wrapSub file.length offset) else (n : Int)) = n := by
    split_ifs with atEnd
    · rw [wrapSub_eq (by omega) (by omega), toInt_nat (by omega)]
      omega
    · rfl
  have start : wrap (file.deviceOffset + offset) = file.deviceOffset + offset := by
    rw [wrap, Nat.mod_eq_of_lt (by omega)]
  simp only [readFileContents, found, Bool.false_eq_true, if_false, place, total, asked, start, Int.toNat_natCast]
  rw [if_neg (by omega), readLoop_whole positive (by omega) (by omega), contents, drop_window,
    take_window (by omega)]

theorem readFileContents_outside {offset : Int}
    (short : ∀ i file, findFile fs filename = some (i, file) -> file.length ≤ toUlong offset)
    (n : Int) : (readFileContents fs filename n offset false).1 ≤ 0 := by
  rw [readFileContents]
  cases found : findFile fs filename with
  | none => exact Int.le_refl 0
  | some target =>
    simp only [if_pos (short target.1 target.2 found)]
    decide

theorem Orderly.clear (orderly : Orderly fs) (here : fs.files[i]? = some file) (regular : file.regularFile = true)
    (there : fs.files[j]? = some other) (otherRegular : other.regularFile = true)
    (differ : other.deviceOffset ≠ file.deviceOffset) :
    other.place.top ≤ file.place.start ∨ file.place.top ≤ other.place.start := by
  obtain ⟨_, _, fileAt⟩ := orderly.inv.index here regular
  obtain ⟨_, _, otherAt⟩ := orderly.inv.index there otherRegular
  have distinct : other.place ≠ file.place := fun same => differ (congrArg Place.offset same)
  have apart := orderly.apart.forall (mem_of_getElem? otherAt) (mem_of_getElem? fileAt) distinct
  exact apart otherRegular regular differ

theorem Orderly.others_unchanged (orderly : Orderly fs) (here : fs.files[i]? = some file)
    (regular : file.regularFile = true) {offset : Nat} {buf : Bytes}
    (stored : Stored fs next i file after offset n buf (file.deviceOffset + capacity fs i file))
    (there : fs.files[j]? = some other) (differ : other.deviceOffset ≠ file.deviceOffset) :
    next.files[j]? = some other ∧ contents next other = contents fs other := by
  have elsewhere : i ≠ j := by
    rintro rfl
    rw [here] at there
    cases there
    exact differ rfl
  refine ⟨by rw [stored.table, getElem?_set_ne elsewhere, there], ?_⟩
  cases otherRegular : other.regularFile with
  | false =>
    rw [contents, contents, orderly.cleared other (mem_of_getElem? there) otherRegular]
    rfl
  | true =>
    obtain ⟨room, dirty, refill, -⟩ := refillLast_eq orderly.inv here regular
    obtain ⟨-, here', regular', -⟩ := refillLast_spec orderly.inv here regular
    have there' : (refillLast fs i file).1.files[j]? = some other := by
      rw [refill, getElem?_set_ne elsewhere, there]
    have clear := (refillLast_orderly orderly here regular).clear here' regular' there' otherRegular
    have covers := le_roundUp other.length
    apply window_congr
    intro k within
    apply stored.far
    rw [capacity]
    simp only [refill, Place.top, Place.start, TarFile.place, blkSize] at *
    omega

end

structure WriteReads (fs next : TarFs) (filename buf : Bytes) (i : Nat) (file : TarFile) (offset n : Int) : Prop where
  back : readFileContents next filename n offset false = (n, buf.take n.toNat)
  own : ∃ after, findFile next filename = some (i, after) ∧
    contents next after = overwrite 0 (contents fs file) offset.toNat (buf.take n.toNat)
  others : ∀ (j : Nat) (other : TarFile), fs.files[j]? = some other -> other.deviceOffset ≠ file.deviceOffset ->
    next.files[j]? = some other ∧ contents next other = contents fs other

-- The offset is inside the room, and the gap behind the end of the file is zero.
structure Lands (fs : TarFs) (i : Nat) (file : TarFile) (offset : Int) : Prop where
  nonneg : 0 ≤ offset
  inside : offset.toNat < capacity fs i file
  zeros : ∀ k, file.length ≤ k -> k < offset.toNat -> fs.device (file.deviceOffset + k) = 0

section

variable {fs next : TarFs} {i : Nat} {file : TarFile} {filename buf : Bytes} {driver : Driver} {n : Int}

theorem writeReads_inside (orderly : Orderly fs) (found : findFile fs filename = some (i, file))
    (regular : file.regularFile = true) (reliable : driver.Reliable fs.deviceSize) (positive : 0 < buf.length)
    (lenSmall : buf.length < 2 ^ 31) {offset : Nat} (inside : offset < capacity fs i file)
    (wrote : writeFileContents fs driver filename buf buf.length offset = (n, next)) (inv : FsInv next) :
    WriteReads fs next filename buf i file offset n ↔
      ∀ k, file.length ≤ k -> k < offset -> fs.device (file.deviceOffset + k) = 0 := by
  have here := (findFile_spec found).2
  obtain ⟨last, after, ran, stored⟩ := writeFileContents_stored orderly.inv found regular reliable buf positive
    lenSmall inside
  cases wrote.symm.trans ran
  set count := min buf.length (capacity fs i file - offset) with counted
  have data : (buf.take count).length = count := by
    rw [length_take]
    omega
  have found' : findFile next filename = Option.some (i, after) := by
    refine findFile_set found stored.table stored.mount ?_
    rw [TarFile.str, TarFile.str, stored.name, stored.archLinkname]
  have written : window next.device (file.deviceOffset + offset) (buf.take count).length = buf.take count := by
    rw [data]
    refine window_eq_take 0 (by omega) fun k within => ?_
    rw [Nat.add_assoc]
    exact stored.written k within
  have gap : contents next after = overwrite 0 (contents fs file) offset (buf.take count) ↔
      ∀ k, file.length ≤ k -> k < offset -> fs.device (file.deviceOffset + k) = 0 := by
    have grown : after.length = max file.length (offset + (buf.take count).length) := by rw [data, stored.length]
    rw [contents, contents, stored.place, grown]
    refine window_overwrite_iff written ?_
    rw [← grown, data]
    exact stored.kept
  have back : readFileContents next filename count offset false = ((count : Int), buf.take count) := by
    have longer := stored.length ▸ le_max_right _ _
    rw [readFileContents_eq inv found' (stored.regular.trans regular) (by omega) longer, contents, stored.place,
      drop_window, take_window (by omega)]
    rw [data] at written
    rw [written]
  rw [← gap]
  constructor
  · rintro ⟨-, ⟨other, found'', own⟩, -⟩
    cases found'.symm.trans found''
    exact own
  · intro own
    exact ⟨back, ⟨after, found', own⟩, fun j other => orderly.others_unchanged here regular stored⟩

theorem writeFileContents_beyond (inv : FsInv fs) (driver : Driver) (found : findFile fs filename = some (i, file))
    (regular : file.regularFile = true) (lenSmall : buf.length < 2 ^ 31) {offset : Nat} (offsetSmall : offset < 2 ^ 31)
    (beyond : capacity fs i file ≤ offset) :
    writeFileContents fs driver filename buf buf.length offset = ((buf.length : Int), (refillLast fs i file).1) := by
  have total := total_eq offsetSmall lenSmall
  have atEnd : file.length ≤ toUlong (toInt ((offset : Int) + buf.length)) := by
    simp only [capacity, roundUp, blkSize] at *
    omega
  rw [writeFileContents_eq inv found regular driver buf offsetSmall lenSmall, if_pos atEnd, if_neg (Nat.not_lt.2 beyond)]

theorem writeFileContents_empty (inv : FsInv fs) (driver : Driver) (found : findFile fs filename = some (i, file))
    (regular : file.regularFile = true) {offset : Nat} (small : offset < 2 ^ 31) :
    (writeFileContents fs driver filename [] (0 : Nat) offset).1 = 0 := by
  have idle (fs : TarFs) (file : TarFile) (newSize : Nat) :
      (storeContents fs driver i file [] offset newSize 0).1 = 0 := by
    exact congrArg Prod.fst (if_neg (by decide))
  rw [writeFileContents_eq inv found regular driver [] small (by decide), Nat.zero_min]
  split_ifs
  · exact idle _ _ _
  · rfl
  · exact idle _ _ _

theorem write_reads_back_iff {volume : Volume} (room : (entryHeaders volume.fs volume.members).length < maxTarFiles)
    (bare : LinksBare volume.fs volume.members) (reached : volume.Reaches fs)
    (found : findFile fs filename = some (i, file)) (regular : file.regularFile = true)
    (reliable : driver.Reliable fs.deviceSize) (lenSmall : buf.length < 2 ^ 31) {offset : Int}
    (range : -2 ^ 31 ≤ offset ∧ offset < 2 ^ 31)
    (wrote : writeFileContents fs driver filename buf buf.length offset = (n, next)) (counted : 0 < n) :
    WriteReads fs next filename buf i file offset n ↔ Lands fs i file offset := by
  have orderly := reachable_orderly room bare reached
  have current (j : Nat) (other : TarFile) (same : findFile fs filename = some (j, other)) :
      other.regularFile = true := by
    rw [found] at same
    cases same
    exact regular
  have after : Orderly next := by
    have kept : Orderly (writeFileContents fs driver filename buf buf.length offset).2 :=
      writeFileContents_orderly orderly reliable.honest buf ⟨by omega, by omega⟩ range current
    rw [wrote] at kept
    exact kept
  -- A read that gives nothing cannot give back the bytes.
  have unread (short : ∀ j other, findFile next filename = some (j, other) -> other.length ≤ toUlong offset) :
      ¬ WriteReads fs next filename buf i file offset n := by
    intro reads
    have low := readFileContents_outside short n
    rw [reads.back] at low
    exact absurd low (by simpa using counted)
  by_cases nonneg : 0 ≤ offset
  · obtain ⟨offset, rfl⟩ := Int.eq_ofNat_of_zero_le nonneg
    by_cases inside : offset < capacity fs i file
    · by_cases more : 0 < buf.length
      · refine (writeReads_inside orderly found regular reliable more lenSmall inside wrote after.inv).trans ?_
        exact ⟨fun zeros => ⟨nonneg, inside, zeros⟩, fun lands => lands.zeros⟩
      obtain rfl := length_eq_zero_iff.1 (Nat.eq_zero_of_not_pos more)
      have nothing := writeFileContents_empty orderly.inv driver found regular (by omega : offset < 2 ^ 31)
      rw [← length_nil, wrote] at nothing
      exact absurd nothing (Int.ne_of_gt counted)
    refine iff_of_false (unread fun j other same => ?_) fun lands => inside lands.inside
    have beyond := writeFileContents_beyond orderly.inv driver found regular lenSmall (by omega) (not_lt.1 inside)
    cases beyond.symm.trans wrote
    obtain ⟨_, _, refill, -⟩ := refillLast_eq orderly.inv (findFile_spec found).2 regular
    rw [refill] at same
    cases same.symm.trans (findFile_set found rfl rfl rfl)
    rw [toUlong_nat (by omega)]
    simp only [capacity, roundUp, blkSize] at inside ⊢
    omega
  · refine iff_of_false (unread fun j other same => ?_) fun lands => nonneg lands.nonneg
    have small := after.length_small (mem_of_getElem? (findFile_spec same).2)
    by_contra longer
    exact nonneg (toUlong_small range.1 range.2 ((not_le.1 longer).trans small)).1

end

theorem honestDriver_reliable (deviceSize : Nat) : honestDriver.Reliable deviceSize where
  honest := honestDriver_honest
  whole _ _ _ nonneg _ := max_eq_left nonneg

theorem emptyVolume_bare : LinksBare emptyVolume.fs emptyVolume.members :=
  fun front link dummy rest same => absurd same (by simp [emptyVolume])

def madeA : Option (TarFs × Nat × TarFile) := do
  let start ← scanDeviceForfiles emptyVolume.fs
  let fs ← step start (.create honestDriver nameA false)
  let found ← findFile fs nameA
  some (fs, found)

theorem madeA_reached {fs : TarFs} {found : Nat × TarFile} (made : madeA = some (fs, found)) :
    emptyVolume.Reaches fs ∧ findFile fs nameA = some found := by
  simp only [madeA, Run.bind_iff] at made
  obtain ⟨start, scanned, next, created, target, named, same⟩ := made
  cases same
  exact ⟨emptyVolume_create scanned created, named⟩

theorem write_reads_back_iff_emptyVolume :
    ∃ fs next file, emptyVolume.Reaches fs ∧ findFile fs nameA = some (1, file) ∧
      writeFileContents fs honestDriver nameA [120, 121] 2 0 = (2, next) ∧ Lands fs 1 file 0 ∧
      WriteReads fs next nameA [120, 121] 1 file 0 2 := by
  have outcome : madeA.map (fun made => (made.2.1, made.2.2.regularFile, capacity made.1 made.2.1 made.2.2,
      (writeFileContents made.1 honestDriver nameA [120, 121] 2 0).1)) = some (1, true, 512, 2) := by decide +kernel
  obtain ⟨⟨fs, i, file⟩, made, seen⟩ := map_eq_some_iff.1 outcome
  obtain ⟨rfl, regular, room, counted⟩ : i = 1 ∧ file.regularFile = true ∧ capacity fs i file = 512 ∧
      (writeFileContents fs honestDriver nameA [120, 121] 2 0).1 = 2 := by simpa using seen
  obtain ⟨reached, found⟩ := madeA_reached made
  have wrote : writeFileContents fs honestDriver nameA [120, 121] 2 0 =
      (2, (writeFileContents fs honestDriver nameA [120, 121] 2 0).2) := Prod.ext counted rfl
  have lands : Lands fs 1 file 0 := ⟨by decide, by rw [room]; decide, fun k _ high => absurd high (by simp)⟩
  refine ⟨fs, _, file, reached, found, wrote, lands, ?_⟩
  exact (write_reads_back_iff (by decide) emptyVolume_bare reached found regular (honestDriver_reliable _) (by decide)
    (by decide) wrote (by decide)).2 lands

theorem writes_beyond_the_end : ∃ fs file, emptyVolume.Reaches fs ∧ findFile fs nameA = some (1, file) ∧
      (∃ next, writeFileContents fs honestDriver nameA [120] 1 600 = (1, next) ∧
        ¬ WriteReads fs next nameA [120] 1 file 600 1) ∧
      ∃ next, writeFileContents fs honestDriver nameA [120] 1 2 = (1, next) ∧
        ¬ WriteReads fs next nameA [120] 1 file 2 1 := by
  have far : madeA.map (fun made => (made.2.1, (writeFileContents made.1 honestDriver nameA [120] 1 600).1,
      (readFileContents (writeFileContents made.1 honestDriver nameA [120] 1 600).2 nameA 1 600 false).1)) =
      some (1, 1, -1) := by decide +kernel
  have gap : madeA.map (fun made => ((writeFileContents made.1 honestDriver nameA [120] 1 2).1,
      contents made.1 made.2.2,
      (findFile (writeFileContents made.1 honestDriver nameA [120] 1 2).2 nameA).map fun found =>
        contents (writeFileContents made.1 honestDriver nameA [120] 1 2).2 found.2)) =
      some (1, [], some [46, 100, 120]) := by decide +kernel
  obtain ⟨⟨fs, i, file⟩, made, seen⟩ := map_eq_some_iff.1 far
  rw [made, map_some] at gap
  simp only [Prod.mk.injEq, some.injEq] at seen gap
  obtain ⟨rfl, farCount, farRead⟩ := seen
  obtain ⟨gapCount, before, gapRead⟩ := gap
  obtain ⟨reached, found⟩ := madeA_reached made
  refine ⟨fs, file, reached, found, ⟨_, Prod.ext farCount rfl, fun reads => ?_⟩, _, Prod.ext gapCount rfl,
    fun reads => ?_⟩
  · rw [reads.back] at farRead
    exact absurd farRead (by decide)
  · obtain ⟨after, found', own⟩ := reads.own
    rw [found', map_some, some.injEq, own, before] at gapRead
    exact absurd gapRead (by decide)

end JinyKernel.Tarfs
