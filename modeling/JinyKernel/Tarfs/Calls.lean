import JinyKernel.Tarfs.Extents

namespace JinyKernel.Tarfs

open List Option

def TarFs.places (fs : TarFs) : List Place := fs.files.tail.map TarFile.place

structure FsInv (fs : TarFs) : Prop where
  table : Table fs.filesystemSize fs.places
  root : ∃ root, fs.files.head? = some root ∧ root.regularFile = false ∧ root.dummyfileLen = 0
  size : fs.filesystemSize ≤ fs.deviceSize
  small : fs.deviceSize < 2 ^ 31
  blocks : blkSize ∣ fs.extentSize
  extent : fs.extentSize < 2 ^ 63

def Driver.Honest (driver : Driver) : Prop := ∀ offset len, driver offset len ≤ max len 0

section

variable (fs : TarFs) (driver : Driver)

include fs driver

theorem writeToDevice_fs (offset : Int) (buf : Bytes) (len : Int) :
    ∃ device, (writeToDevice fs driver offset buf len).2 = { fs with device := device } :=
  ⟨_, rfl⟩

theorem writeToDevice_ret (offset : Int) (buf : Bytes) (len : Int) :
    (writeToDevice fs driver offset buf len).1 = driver offset len :=
  rfl

theorem writeMetaBlock_fs (file : TarFile) (hdr : Bytes) :
    ∃ device, writeMetaBlock fs driver file hdr = { fs with device := device } := by
  rw [writeMetaBlock]
  split_ifs
  · exact writeToDevice_fs ..
  · exact ⟨fs.device, rfl⟩

theorem writeDummyBlock_fs (file : TarFile) (hdr : Bytes) :
    ∃ device, writeDummyBlock fs driver file hdr = { fs with device := device } := by
  simp only [writeDummyBlock]
  split_ifs
  · exact writeToDevice_fs ..
  · exact writeToDevice_fs ..
  · exact ⟨fs.device, rfl⟩

theorem syncFileMetadata_fs (i : Nat) {file : TarFile}
    (dirty : file.metadataDirty = true) :
    ∃ device, syncFileMetadata fs driver i file =
      { fs with files := fs.files.set i { file with metadataDirty := false }, device := device } := by
  simp only [syncFileMetadata, dirty, Bool.true_eq_false, if_false]
  obtain ⟨device, first⟩ := writeMetaBlock_fs fs driver file (storeToHeader file fs.magic fs.dummyPrefix).1
  rw [first]
  obtain ⟨device', second⟩ := writeDummyBlock_fs { fs with device := device } driver file
    (storeToHeader file fs.magic fs.dummyPrefix).2
  rw [second]
  exact ⟨device', rfl⟩

end

variable {fs : TarFs} {i : Nat} {file : TarFile}

theorem FsInv.index (inv : FsInv fs) (here : fs.files[i]? = some file) (regular : file.regularFile = true) :
    ∃ j, i = j + 1 ∧ fs.places[j]? = some file.place := by
  obtain ⟨root, first, special, -⟩ := inv.root
  rw [head?_eq_getElem?] at first
  cases i with
  | zero =>
    obtain rfl : root = file := some.inj (first.symm.trans here)
    rw [special] at regular
    cases regular
  | succ j => exact ⟨j, rfl, by simp [TarFs.places, here]⟩

theorem places_set (fs : TarFs) (j : Nat) (file : TarFile) :
    (fs.files.set (j + 1) file).tail.map TarFile.place = fs.places.set j file.place := by
  cases files : fs.files with
  | nil => simp [TarFs.places, files]
  | cons root rest => simp [TarFs.places, files, map_set]

section

variable (inv : FsInv fs)

include inv

theorem FsInv.set {j mark : Nat} {device : Nat -> UInt8}
    (table : Table mark (fs.places.set j file.place)) (size : mark ≤ fs.deviceSize) :
    FsInv { fs with files := fs.files.set (j + 1) file, filesystemSize := mark, device := device } where
  table := by
    rw [TarFs.places, places_set]
    exact table
  root := by
    rw [head?_eq_getElem?, getElem?_set_ne (by omega), ← head?_eq_getElem?]
    exact inv.root
  size := size
  __ := inv

variable (driver : Driver)

theorem FsInv.sync {j : Nat} (dirty : file.metadataDirty = true)
    (table : Table fs.filesystemSize (fs.places.set j file.place)) :
    FsInv (syncFileMetadata fs driver (j + 1) file) := by
  obtain ⟨device, synced⟩ := syncFileMetadata_fs fs driver (j + 1) dirty
  rw [synced]
  exact inv.set table inv.size

theorem FsInv.bounds (here : fs.files[i]? = some file) (regular : file.regularFile = true) :
    blkSize ∣ file.dummyfileLen ∧ cielLength file.length = roundUp file.length ∧
      file.deviceOffset + roundUp file.length + file.dummyfileLen ≤ fs.filesystemSize := by
  obtain ⟨j, -, there⟩ := inv.index here regular
  have sound := inv.table.sound file.place (mem_of_getElem? there)
  have below := sound.below regular
  refine ⟨sound.blocks regular, ?_, below⟩
  apply cielLength_eq
  have size := inv.size
  have small := inv.small
  simp only [TarFile.place, roundUp, blkSize] at below
  omega

theorem removeFile_inv (here : fs.files[i]? = some file)
    (regular : file.regularFile = true) : FsInv (removeFile fs driver i file) := by
  obtain ⟨j, rfl, there⟩ := inv.index here regular
  obtain ⟨-, rounded, below⟩ := inv.bounds here regular
  have size := inv.size
  have small := inv.small
  have room : wrap (file.dummyfileLen + cielLength file.length + blkSize) =
      file.dummyfileLen + roundUp file.length + blkSize := by
    rw [rounded, wrap, Nat.mod_eq_of_lt]
    simp only [blkSize] at *
    omega
  have kept := inv.table.remove there regular
  apply inv.sync driver rfl
  simpa only [TarFile.place, room] using kept

theorem FsInv.with_device (device : Nat -> UInt8) : FsInv { fs with device := device } :=
  { inv with }

theorem FsInv.create {mark : Nat} (dirty : file.metadataDirty = true)
    (regular : file.regularFile = true) (plain : file.type ≠ lfLink) (empty : file.length = 0)
    (next : file.deviceOffset = fs.filesystemSize + blkSize) (blocks : blkSize ∣ file.dummyfileLen)
    (room : file.deviceOffset + file.dummyfileLen ≤ mark) (fits : mark ≤ fs.deviceSize) :
    FsInv (syncFileMetadata { fs with files := fs.files ++ [file], filesystemSize := mark } driver
      fs.files.length file) := by
  obtain ⟨root, first, special⟩ := inv.root
  obtain ⟨rest, files⟩ := head?_eq_some_iff.1 first
  have higher : fs.filesystemSize ≤ mark := by omega
  have notLink : (file.type == lfLink) = false := by simpa using plain
  have table : Table mark (fs.places ++ [file.place]) := by
    refine inv.table.append higher ⟨fun _ => blocks, fun _ => ?_, fun _ => ?_⟩ ?_
    · simp only [TarFile.place, empty, roundUp_zero]
      omega
    · simp only [TarFile.place, next]
      omega
    intro r owned
    simp only [Place.extent, TarFile.place, notLink, Place.start, Place.finish, regular, empty, roundUp_zero, next,
      Bool.false_eq_true, if_false, if_true, mem_def, some.injEq] at owned
    subst owned
    simp only [blkSize] at *
    omega
  have grown : FsInv { fs with files := fs.files ++ [file], filesystemSize := mark } := by
    refine ⟨?_, ⟨root, by simp [files], special⟩, fits, inv.small, inv.blocks, inv.extent⟩
    simpa [TarFs.places, files] using table
  have length : fs.files.length = rest.length + 1 := by simp [files]
  rw [length]
  apply grown.sync driver dirty
  simpa [TarFs.places, files] using table

theorem FsInv.create_sums :
    wrap (fs.filesystemSize + 2 * blkSize + fs.extentSize) = fs.filesystemSize + 2 * blkSize + fs.extentSize ∧
      wrap (fs.filesystemSize + blkSize) = fs.filesystemSize + blkSize ∧
      wrap (blkSize + fs.extentSize) = blkSize + fs.extentSize := by
  have size := inv.size
  have small := inv.small
  have extent := inv.extent
  simp only [wrap, blkSize]
  omega

theorem createNewFile_spec (filename : Bytes) (directory : Bool) (free : fs.files.length < maxTarFiles) :
    ∃ made next, createNewFile fs driver filename directory = some (made, next) ∧ FsInv next ∧
      (next = fs ∨ ∃ root name, fs.files.head? = some root ∧ regularisedFilename fs filename = some name ∧
        fs.filesystemSize + 2 * blkSize + fs.extentSize ≤ fs.deviceSize ∧
        next = syncFileMetadata { fs with
          files := fs.files ++ [newFile fs root (name.drop (prefixLen fs name)) directory]
          filesystemSize := fs.filesystemSize + 2 * blkSize + fs.extentSize } driver fs.files.length
          (newFile fs root (name.drop (prefixLen fs name)) directory)) := by
  obtain ⟨total, offset, room⟩ := inv.create_sums
  obtain ⟨root, first, -, noRoom⟩ := inv.root
  rw [createNewFile, total]
  by_cases full : fs.deviceSize < fs.filesystemSize + 2 * blkSize + fs.extentSize
  · exact ⟨false, fs, if_pos full, inv, .inl rfl⟩
  rw [if_neg full]
  cases named : regularisedFilename fs filename with
  | none => exact ⟨false, fs, rfl, inv, .inl rfl⟩
  | some name =>
    simp only [Run.guard_bind free, first]
    refine ⟨_, _, rfl, ?_, .inr ⟨root, name, rfl, rfl, Nat.le_of_not_lt full, rfl⟩⟩
    cases directory with
    | true =>
      refine inv.create driver ?_ ?_ (show lfDir ≠ lfLink by decide) ?_ offset ?_ ?_ ?_
      iterate 3 rfl
      · simp [newFile, noRoom]
      · simp only [newFile, if_true, noRoom, offset]
        omega
      · omega
    | false =>
      refine inv.create driver ?_ ?_ (show lfNormal ≠ lfLink by decide) ?_ offset ?_ ?_ ?_
      iterate 3 rfl
      · simpa [newFile, room] using inv.blocks
      · simp only [newFile, Bool.false_eq_true, if_false, offset, room]
        omega
      · omega

theorem FsInv.refill_sums (here : fs.files[i]? = some file) (regular : file.regularFile = true)
    (empty : file.dummyfileLen = 0) (ends : wrap (cielLength file.length + file.deviceOffset) = fs.filesystemSize) :
    wrap (fs.filesystemSize + fs.extentSize) = fs.filesystemSize + fs.extentSize ∧
      wrap (file.dummyfileLen + fs.extentSize) = fs.extentSize ∧
      roundUp file.length + file.deviceOffset = fs.filesystemSize := by
  obtain ⟨-, rounded, below⟩ := inv.bounds here regular
  have size := inv.size
  have small := inv.small
  have extent := inv.extent
  rw [rounded, wrap, Nat.mod_eq_of_lt (by omega)] at ends
  rw [wrap, wrap, empty, Nat.zero_add, Nat.mod_eq_of_lt (by omega), Nat.mod_eq_of_lt (by omega)]
  exact ⟨rfl, rfl, ends⟩

theorem refillLast_eq (here : fs.files[i]? = some file) (regular : file.regularFile = true) :
    ∃ room dirty, refillLast fs i file =
        ({ fs with
          files := fs.files.set i { file with dummyfileLen := room, metadataDirty := dirty }
          filesystemSize := fs.filesystemSize + (room - file.dummyfileLen) },
          { file with dummyfileLen := room, metadataDirty := dirty }) ∧
      file.dummyfileLen ≤ room ∧ (room ≠ file.dummyfileLen ->
        file.deviceOffset + roundUp file.length + file.dummyfileLen = fs.filesystemSize) := by
  rw [refillLast]
  split_ifs with last
  · obtain ⟨empty, ends, -⟩ := last
    obtain ⟨mark, room, finish⟩ := inv.refill_sums here regular empty ends
    refine ⟨fs.extentSize, true, ?_, by omega, fun _ => by omega⟩
    rw [mark, room, empty, Nat.sub_zero]
  · obtain ⟨within, same⟩ := List.getElem?_eq_some_iff.1 here
    refine ⟨file.dummyfileLen, file.metadataDirty, ?_, Nat.le_refl _, fun other => absurd rfl other⟩
    have kept : fs.files.set i file = fs.files := by rw [← same, set_getElem_self]
    rw [Nat.sub_self, Nat.add_zero, kept]

theorem refillLast_spec (here : fs.files[i]? = some file) (regular : file.regularFile = true) :
    FsInv (refillLast fs i file).1 ∧ (refillLast fs i file).1.files[i]? = some (refillLast fs i file).2 ∧
      (refillLast fs i file).2.regularFile = true ∧ (refillLast fs i file).2.length = file.length := by
  obtain ⟨j, rfl, there⟩ := inv.index here regular
  rw [refillLast]
  split_ifs with last
  · obtain ⟨empty, ends, fits⟩ := last
    obtain ⟨mark, room, finish⟩ := inv.refill_sums here regular empty ends
    rw [mark] at fits
    simp only [mark, room]
    refine ⟨inv.set ?_ (Nat.le_of_lt fits), ?_, regular, trivial⟩
    · refine inv.table.grow (Nat.le_add_right _ _) there regular inv.blocks ?_ ?_ fun _ => ?_
      all_goals
        simp only [TarFile.place]
        omega
    · exact List.getElem?_set_self (List.getElem?_eq_some_iff.1 here).1
  · exact ⟨inv, here, regular, rfl⟩

end

variable {driver : Driver} {filename : Bytes} {lenArg offset : Int}

theorem writeLoop_spec (honest : driver.Honest) (start : Nat) (buf : Bytes) (allowedLength : Nat) (fuel : Nat)
    (fs : TarFs) (retLen : Int) (low : 0 ≤ retLen) (high : retLen ≤ max (toInt allowedLength) 0) :
    (∃ device, (writeLoop driver start buf allowedLength fuel fs retLen).2 = { fs with device := device }) ∧
      0 ≤ (writeLoop driver start buf allowedLength fuel fs retLen).1 ∧
      (writeLoop driver start buf allowedLength fuel fs retLen).1 ≤ max (toInt allowedLength) 0 := by
  induction fuel generalizing fs retLen with
  | zero => exact ⟨⟨fs.device, rfl⟩, low, high⟩
  | succ fuel ih =>
    have range := toInt_range allowedLength
    have left : toInt (wrapSub allowedLength (toUlong retLen)) = toInt allowedLength - retLen := by
      have back := toInt_emod allowedLength
      have fixed := toInt_eq (by omega : -2 ^ 31 ≤ toInt allowedLength - retLen) (by omega)
      rw [← fixed]
      apply toInt_congr
      rw [toUlong_eq low (by omega), wrapSub_emod _ (by omega), Int.toNat_of_nonneg low, Int.sub_emod, ← back,
        ← Int.sub_emod]
    rw [writeLoop]
    by_cases more : 0 < wrapSub allowedLength (toUlong retLen)
    · simp only [if_pos more, left]
      have bounded := honest (toInt (start + toUlong retLen : Nat)) (toInt allowedLength - retLen)
      obtain ⟨device, same⟩ := writeToDevice_fs fs driver (toInt (start + toUlong retLen : Nat))
        (buf.drop retLen.toNat) (toInt allowedLength - retLen)
      rw [same, writeToDevice_ret]
      generalize driver (toInt (start + toUlong retLen : Nat)) (toInt allowedLength - retLen) = stored at *
      by_cases more : 0 < stored
      · have sum : toInt (retLen + stored) = retLen + stored := toInt_eq (by omega) (by omega)
        rw [if_pos more, sum]
        exact ih _ _ (by omega) (by omega)
      · rw [if_neg more]
        exact ⟨⟨device, rfl⟩, low, high⟩
    · rw [if_neg more]
      exact ⟨⟨fs.device, rfl⟩, low, high⟩

theorem grown_room {length room reached : Nat} (blocks : blkSize ∣ room) (small : roundUp length + room < 2 ^ 31)
    (longer : length < reached) (fits : reached ≤ roundUp length + room) :
    let left := if roundUp length < reached then wrapSub room (cielLength (reached - roundUp length)) else room
    blkSize ∣ left ∧ roundUp reached + left = roundUp length + room := by
  have bound : reached - roundUp length < 2 ^ 63 := by omega
  rw [cielLength_eq bound]
  by_cases crosses : roundUp length < reached
  · have enough : roundUp (reached - roundUp length) ≤ room := by
      simp only [roundUp, blkSize] at *
      omega
    rw [if_pos crosses, wrapSub_eq enough (by omega)]
    simp only [roundUp, blkSize] at *
    omega
  · rw [if_neg crosses]
    refine ⟨blocks, congrArg (· + room) ?_⟩
    simp only [roundUp, blkSize] at *
    omega

theorem FsInv.growFile_inv (inv : FsInv fs) (driver : Driver) (here : fs.files[i]? = some file)
    (regular : file.regularFile = true) (newSize : Nat) (offset retLen : Int)
    (inside : 0 < retLen -> newSize ≠ file.length ->
      toUlong (toInt (offset + retLen)) ≤ roundUp file.length + file.dummyfileLen) :
    FsInv (growFile fs driver i file newSize offset retLen) := by
  obtain ⟨j, rfl, there⟩ := inv.index here regular
  obtain ⟨blocks, rounded, below⟩ := inv.bounds here regular
  have size := inv.size
  have small := inv.small
  by_cases grows : 0 < retLen ∧ newSize ≠ file.length ∧ file.length < toUlong (toInt (offset + retLen))
  · obtain ⟨leftBlocks, total⟩ := grown_room blocks (by omega) grows.2.2 (inside grows.1 grows.2.1)
    simp only [growFile, if_pos grows, rounded]
    exact inv.sync driver rfl (inv.table.rewrite there regular leftBlocks total)
  · rw [growFile, if_neg grows]
    exact inv

theorem findFile_spec (found : findFile fs filename = some (i, file)) :
    getFile fs filename = some i ∧ fs.files[i]? = some file := by
  simp only [findFile, Run.bind_iff] at found
  obtain ⟨j, named, other, here, same⟩ := found
  cases same
  exact ⟨named, here⟩

theorem storeContents_keeps {P : TarFs -> Prop} (honest : driver.Honest) (buf : Bytes) (offset : Int)
    (newSize allowedLength : Nat) (grow : ∀ device retLen, (0 < retLen -> retLen ≤ toInt allowedLength) ->
      P (growFile { fs with device := device } driver i file newSize offset retLen)) :
    P (storeContents fs driver i file buf offset newSize allowedLength).2 := by
  obtain ⟨⟨device, same⟩, -, high⟩ := writeLoop_spec honest (wrap (file.deviceOffset + toUlong offset)) buf
    allowedLength (allowedLength + 1) fs 0 (by omega) (by omega)
  simp only [storeContents]
  rw [same]
  exact grow device _ (by omega)

theorem write_reach {retLen : Int} {allowedSize : Nat} (bound : allowedSize < 2 ^ 31)
    (lenRange : -2 ^ 31 ≤ lenArg ∧ lenArg < 2 ^ 31) (offsetRange : -2 ^ 31 ≤ offset ∧ offset < 2 ^ 31)
    (room : toUlong offset < allowedSize) (stored : 0 < retLen)
    (high : retLen ≤ toInt (if allowedSize < toUlong (toInt (offset + lenArg)) then
      wrapSub allowedSize (toUlong offset) else toUlong lenArg : Nat)) :
    toUlong (toInt (offset + retLen)) ≤ allowedSize := by
  obtain ⟨positive, exact⟩ := toUlong_small offsetRange.1 offsetRange.2 (room.trans bound)
  have reach : offset + retLen ≤ allowedSize := by
    split_ifs at high with short
    · rw [wrapSub_eq (Nat.le_of_lt room) (by omega), toInt_eq (by omega) (by omega)] at high
      omega
    rw [toInt_toUlong lenRange.1 lenRange.2] at high
    have range := toInt_range (offset + lenArg)
    obtain ⟨nonneg, total⟩ := toUlong_small range.1 range.2 (lt_of_le_of_lt (Nat.le_of_not_lt short) bound)
    -- The sum did not wrap, since a wrapped one would be negative.
    have sum : toInt (offset + lenArg) = offset + lenArg := by
      have back := toInt_emod (offset + lenArg)
      omega
    omega
  rw [toInt_eq (by omega) (by omega), toUlong_eq (by omega) (by omega)]
  omega

theorem writeFileContents_keeps {P : TarFs -> Prop} (inv : FsInv fs) (kept : P fs) (honest : driver.Honest)
    (buf : Bytes) (lenRange : -2 ^ 31 ≤ lenArg ∧ lenArg < 2 ^ 31) (offsetRange : -2 ^ 31 ≤ offset ∧ offset < 2 ^ 31)
    (regular : ∀ i file, findFile fs filename = some (i, file) -> file.regularFile = true)
    (refill : ∀ i file, fs.files[i]? = some file -> file.regularFile = true -> P (refillLast fs i file).1)
    (grow : ∀ mid i file device newSize retLen, FsInv mid -> P mid -> mid.files[i]? = some file ->
      file.regularFile = true ->
      (0 < retLen -> newSize ≠ file.length ->
        toUlong (toInt (offset + retLen)) ≤ roundUp file.length + file.dummyfileLen) ->
      P (growFile { mid with device := device } driver i file newSize offset retLen)) :
    P (writeFileContents fs driver filename buf lenArg offset).2 := by
  rw [writeFileContents]
  cases found : findFile fs filename with
  | none => exact kept
  | some target =>
    obtain ⟨i, file⟩ := target
    have here := (findFile_spec found).2
    have isRegular := regular i file found
    by_cases atEnd : file.length ≤ toUlong (toInt (offset + lenArg))
    · obtain ⟨after, there, still, length⟩ := refillLast_spec inv here isRegular
      have refilled := refill i file here isRegular
      obtain ⟨-, rounded, below⟩ := after.bounds there still
      have size := after.size
      have small := after.small
      have allowed : wrap (cielLength file.length + (refillLast fs i file).2.dummyfileLen) =
          roundUp (refillLast fs i file).2.length + (refillLast fs i file).2.dummyfileLen := by
        rw [← length, rounded, wrap, Nat.mod_eq_of_lt (by omega)]
      simp only [if_pos atEnd, allowed]
      split
      next room =>
        refine storeContents_keeps honest buf offset _ _ fun device retLen high => ?_
        refine grow _ i _ device _ retLen after refilled there still fun stored _ => ?_
        exact write_reach (by omega) lenRange offsetRange room stored (high stored)
      next => exact refilled
    · simp only [if_neg atEnd]
      refine storeContents_keeps honest buf offset _ _ fun device retLen _ => ?_
      exact grow fs i file device _ retLen inv kept here isRegular fun _ resized => absurd rfl resized

theorem writeFileContents_inv (inv : FsInv fs) (honest : driver.Honest) (buf : Bytes)
    (lenRange : -2 ^ 31 ≤ lenArg ∧ lenArg < 2 ^ 31) (offsetRange : -2 ^ 31 ≤ offset ∧ offset < 2 ^ 31)
    (regular : ∀ i file, findFile fs filename = some (i, file) -> file.regularFile = true) :
    FsInv (writeFileContents fs driver filename buf lenArg offset).2 := by
  refine writeFileContents_keeps inv inv honest buf lenRange offsetRange regular ?_ ?_
  · exact fun i file here isRegular => (refillLast_spec inv here isRegular).1
  · intro mid i file device newSize retLen before _ here isRegular inside
    exact (before.with_device device).growFile_inv driver here isRegular newSize offset retLen inside

end JinyKernel.Tarfs
