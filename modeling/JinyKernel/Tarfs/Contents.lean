import JinyKernel.Shared.Memory
import JinyKernel.Tarfs.Calls

namespace JinyKernel.Tarfs

def contents (fs : TarFs) (file : TarFile) : Bytes := Memory.window fs.device file.deviceOffset file.length

structure Driver.Reliable (driver : Driver) (deviceSize : Nat) : Prop where
  honest : driver.Honest
  whole : ∀ offset len : Int, 0 ≤ offset -> 0 ≤ len -> offset + len ≤ deviceSize -> driver offset len = len

def Spares (fs next : TarFs) (low high : Int) : Prop :=
  ∀ pos : Nat, (pos : Int) < low ∨ high ≤ pos -> next.device pos = fs.device pos

variable {fs next last : TarFs} {low high : Int} {driver : Driver} {file : TarFile}

theorem Spares.refl (fs : TarFs) (low high : Int) : Spares fs fs low high := fun _ _ => rfl

theorem writeToDevice_spares (honest : driver.Honest) (fs : TarFs) (offset : Int) (buf : Bytes) {len : Int}
    (natural : 0 ≤ len) : Spares fs (writeToDevice fs driver offset buf len).2 offset (offset + len) := by
  intro pos outside
  have bounded := honest offset len
  refine if_neg ?_
  rw [max_eq_left natural] at bounded
  omega

theorem meta_offset (bound : file.deviceOffset < 2 ^ 31) :
    toInt (wrapSub file.deviceOffset blkSize) = (file.deviceOffset : Int) - blkSize := by
  have size : (blkSize : Int) = 512 := rfl
  have fixed := toInt_eq (by omega : -2 ^ 31 ≤ (file.deviceOffset : Int) - blkSize) (by omega)
  rw [← fixed]
  exact toInt_congr (wrapSub_emod _ (by decide))

theorem writeMetaBlock_spares (honest : driver.Honest) (fs : TarFs) (bound : file.deviceOffset < 2 ^ 31) (hdr : Bytes) :
    Spares fs (writeMetaBlock fs driver file hdr) ((file.deviceOffset : Int) - blkSize) file.deviceOffset := by
  rw [writeMetaBlock]
  split_ifs
  · intro pos outside
    have sizes : (blkSize : Int) = 512 ∧ (headerSize : Int) = 495 := ⟨rfl, rfl⟩
    refine writeToDevice_spares honest fs _ hdr (by omega) pos ?_
    rw [meta_offset bound]
    omega
  · exact .refl _ _ _

theorem dummy_offset (bound : file.deviceOffset + roundUp file.length < 2 ^ 31) :
    toInt (file.deviceOffset + toUlong (toInt (cielLength file.length / blkSize : Nat) * blkSize) : Nat) =
      (file.deviceOffset + roundUp file.length : Nat) := by
  have rounded : cielLength file.length = roundUp file.length := by
    apply cielLength_eq
    simp only [roundUp, blkSize] at bound
    omega
  have blocks : roundUp file.length / blkSize * blkSize = roundUp file.length := Nat.div_mul_cancel (Nat.dvd_mul_left _ _)
  have small : roundUp file.length / blkSize < 2 ^ 31 := lt_of_le_of_lt (Nat.div_le_self _ _) (by omega)
  rw [rounded, toInt_nat small, ← Nat.cast_mul, blocks, toUlong_nat (by omega), toInt_nat bound]

theorem writeDummyBlock_spares (honest : driver.Honest) (fs : TarFs) (regular : file.regularFile = true)
    (bound : file.deviceOffset + roundUp file.length < 2 ^ 31) (blocks : blkSize ∣ file.dummyfileLen) (hdr : Bytes) :
    Spares fs (writeDummyBlock fs driver file hdr) (file.deviceOffset + roundUp file.length : Nat)
      (file.deviceOffset + roundUp file.length + file.dummyfileLen : Nat) := by
  simp only [writeDummyBlock, regular, if_true, dummy_offset bound]
  split_ifs with kept
  · intro pos outside
    -- room is whole blocks, so the header fits into it
    have room : blkSize ≤ file.dummyfileLen := Nat.le_of_dvd kept.2 blocks
    have sizes : blkSize = 512 ∧ headerSize = 495 := ⟨rfl, rfl⟩
    refine writeToDevice_spares honest fs _ hdr (by omega) pos ?_
    omega
  · exact .refl _ _ _

theorem sync_device (honest : driver.Honest) (fs : TarFs) (i : Nat) (regular : file.regularFile = true)
    (dirty : file.metadataDirty = true) (bound : file.deviceOffset + roundUp file.length < 2 ^ 31)
    (blocks : blkSize ∣ file.dummyfileLen) {pos : Nat}
    (spared : pos < file.deviceOffset - blkSize ∨ file.deviceOffset + roundUp file.length + file.dummyfileLen ≤ pos ∨
      file.deviceOffset ≤ pos ∧ pos < file.deviceOffset + roundUp file.length) :
    (syncFileMetadata fs driver i file).device pos = fs.device pos := by
  simp only [syncFileMetadata, dirty, Bool.true_eq_false, if_false]
  refine (writeDummyBlock_spares honest _ regular bound blocks _ pos ?_).trans
    (writeMetaBlock_spares honest fs (by omega) _ pos ?_)
  all_goals omega

variable (device : Nat -> UInt8)

def laid (start : Nat) (buf : Bytes) (len : Nat) : Nat -> UInt8 := fun pos =>
  if start ≤ pos ∧ pos < start + len then buf.getD (pos - start) 0 else device pos

variable {len offset : Nat}

theorem writeLoop_reliable (reliable : driver.Reliable fs.deviceSize) {start : Nat} (buf : Bytes)
    (fits : start + len ≤ fs.deviceSize) (small : fs.deviceSize < 2 ^ 31) :
    writeLoop driver start buf len (len + 1) fs 0 =
      ((len : Int), { fs with device := laid fs.device start buf len }) := by
  by_cases zero : len = 0
  · have same : laid fs.device start buf 0 = fs.device := by
      funext pos
      exact if_neg (by omega)
    rw [zero, same]
    rfl
  obtain ⟨fuel, rfl⟩ := Nat.exists_eq_succ_of_ne_zero zero
  have whole : wrapSub (fuel + 1) (toUlong 0) = fuel + 1 := wrapSub_eq (Nat.zero_le _) (by omega)
  have place : toInt (start + toUlong 0 : Nat) = start := toInt_nat (by change start < 2 ^ 31; omega)
  have size : toInt ((fuel + 1 : Nat) : Int) = (fuel + 1 : Nat) := toInt_nat (by omega)
  have stores := reliable.whole start ((fuel + 1 : Nat) : Int) (by omega) (by omega) (by omega)
  have nothing : wrapSub (fuel + 1) (toUlong ((fuel + 1 : Nat) : Int)) = 0 := by
    rw [toUlong_nat (by omega), wrapSub_eq le_rfl (by omega), Nat.sub_self]
  rw [Nat.succ_eq_add_one, writeLoop, whole, if_pos (Nat.succ_pos _)]
  simp only [place, size, writeToDevice, stores, Int.zero_add, Int.toNat_zero, List.drop_zero]
  rw [if_pos (by omega), writeLoop, nothing, if_neg (Nat.lt_irrefl 0)]
  refine congrArg (Prod.mk _) (congrArg (fun device => { fs with device := device }) ?_)
  funext pos
  rw [laid]
  by_cases here : start ≤ pos ∧ pos < start + (fuel + 1)
  · have index : ((pos : Int) - start).toNat = pos - start := by omega
    rw [if_pos here, if_pos (by omega), index]
  · rw [if_neg here, if_neg (by omega)]

structure Stored (fs next : TarFs) (i : Nat) (file after : TarFile) (offset len : Nat) (buf : Bytes) (top : Nat) :
    Prop where
  table : next.files = fs.files.set i after
  mount : next.mntPoint = fs.mntPoint
  size : next.deviceSize = fs.deviceSize
  name : after.name = file.name
  archLinkname : after.archLinkname = file.archLinkname
  regular : after.regularFile = file.regularFile
  place : after.deviceOffset = file.deviceOffset
  length : after.length = max file.length (offset + len)
  written : ∀ k < len, next.device (file.deviceOffset + (offset + k)) = buf.getD k 0
  kept : ∀ k < after.length, k < offset ∨ offset + len ≤ k ->
    next.device (file.deviceOffset + k) = fs.device (file.deviceOffset + k)
  far : ∀ pos, pos < file.deviceOffset - blkSize ∨ top ≤ pos -> next.device pos = fs.device pos

theorem laid_inside (start : Nat) (buf : Bytes) {k : Nat} (within : k < len) :
    laid device start buf len (start + k) = buf.getD k 0 := by
  rw [laid, if_pos (by omega), Nat.add_sub_cancel_left]

theorem laid_outside {start : Nat} (buf : Bytes) {pos : Nat}
    (outside : pos < start ∨ start + len ≤ pos) : laid device start buf len pos = device pos :=
  if_neg (by omega)

variable {i : Nat}

def grownFile (file : TarFile) (reached : Nat) : TarFile :=
  { file with
    length := reached
    dummyfileLen := if roundUp file.length < reached then
        wrapSub file.dummyfileLen (cielLength (reached - roundUp file.length)) else file.dummyfileLen
    metadataDirty := true }

section

variable (inv : FsInv fs) (here : fs.files[i]? = some file) (regular : file.regularFile = true)
  (reliable : driver.Reliable fs.deviceSize)

include inv here regular reliable

theorem storeContents_eq {offset : Nat} (newSize : Nat) (buf : Bytes)
    (inside : offset + len ≤ roundUp file.length + file.dummyfileLen) :
    storeContents fs driver i file buf offset newSize len = ((len : Int),
      if 0 < len ∧ newSize ≠ file.length ∧ file.length < offset + len then
        syncFileMetadata { fs with device := laid fs.device (file.deviceOffset + offset) buf len } driver i
          (grownFile file (offset + len))
      else { fs with device := laid fs.device (file.deviceOffset + offset) buf len }) := by
  obtain ⟨-, rounded, below⟩ := inv.bounds here regular
  have size := inv.size
  have small := inv.small
  have start : wrap (file.deviceOffset + toUlong offset) = file.deviceOffset + offset := by
    rw [toUlong_nat (by omega), wrap, Nat.mod_eq_of_lt (by omega)]
  have reach : toUlong (toInt ((offset : Int) + (len : Int))) = offset + len := by
    rw [← Nat.cast_add, toInt_nat (by omega), toUlong_nat (by omega)]
  have stored : writeLoop driver (file.deviceOffset + offset) buf len (len + 1) fs 0 = _ :=
    writeLoop_reliable reliable buf (by omega) small
  simp only [storeContents, start, stored, growFile, reach, rounded, Int.natCast_pos]
  rfl

theorem storeContents_stored {offset newSize : Nat} (buf : Bytes) (positive : 0 < len)
    (inside : offset + len ≤ roundUp file.length + file.dummyfileLen)
    (settled : newSize = file.length -> offset + len ≤ file.length) :
    ∃ next after, storeContents fs driver i file buf offset newSize len = ((len : Int), next) ∧
      Stored fs next i file after offset len buf (file.deviceOffset + roundUp file.length + file.dummyfileLen) := by
  obtain ⟨blocks, -, below⟩ := inv.bounds here regular
  have size := inv.size
  have small := inv.small
  rw [storeContents_eq inv here regular reliable newSize buf inside]
  set device := laid fs.device (file.deviceOffset + offset) buf len
  have written : ∀ k < len, device (file.deviceOffset + (offset + k)) = buf.getD k 0 := by
    intro k within
    rw [← Nat.add_assoc]
    exact laid_inside _ _ _ within
  have kept : ∀ k, k < offset ∨ offset + len ≤ k -> device (file.deviceOffset + k) = fs.device (file.deviceOffset + k) :=
    fun k outside => laid_outside _ _ (by omega)
  have far : ∀ pos, pos < file.deviceOffset - blkSize ∨
      file.deviceOffset + roundUp file.length + file.dummyfileLen ≤ pos -> device pos = fs.device pos :=
    fun pos outside => laid_outside _ _ (by omega)
  by_cases grows : 0 < len ∧ newSize ≠ file.length ∧ file.length < offset + len
  · obtain ⟨leftBlocks, total⟩ := grown_room blocks (by omega) grows.2.2 inside
    rw [if_pos grows, grownFile]
    generalize (if roundUp file.length < offset + len then
      wrapSub file.dummyfileLen (cielLength (offset + len - roundUp file.length)) else file.dummyfileLen) = left at *
    set grown : TarFile := { file with length := offset + len, dummyfileLen := left, metadataDirty := true }
    have bound : grown.deviceOffset + roundUp grown.length < 2 ^ 31 := by
      simp only [grown]
      omega
    have still : grown.regularFile = true := regular
    have dirty : grown.metadataDirty = true := rfl
    have headers : ∀ pos, pos < file.deviceOffset - blkSize ∨
        file.deviceOffset + roundUp (offset + len) + left ≤ pos ∨
        file.deviceOffset ≤ pos ∧ pos < file.deviceOffset + roundUp (offset + len) ->
        (syncFileMetadata { fs with device := device } driver i grown).device pos = device pos := fun pos =>
      sync_device reliable.honest { fs with device := device } i still dirty bound leftBlocks
    obtain ⟨last, synced⟩ := syncFileMetadata_fs { fs with device := device } driver i dirty
    have reached := le_roundUp (offset + len)
    rw [synced] at headers ⊢
    refine ⟨_, { grown with metadataDirty := false }, rfl, rfl, rfl, rfl, rfl, rfl, rfl, rfl, ?_, ?_, ?_, ?_⟩
    · exact (max_eq_right (Nat.le_of_lt grows.2.2)).symm
    · exact fun k within => (headers _ (by omega)).trans (written k within)
    · exact fun k within outside => (headers _ (by simp only [grown] at within; omega)).trans (kept k outside)
    · exact fun pos outside => (headers pos (by omega)).trans (far pos outside)
  · rw [if_neg grows]
    have done : offset + len ≤ file.length := by
      by_contra longer
      exact longer (settled (by_contra fun resized => grows ⟨positive, resized, not_le.1 longer⟩))
    refine ⟨_, file, rfl, ?_, rfl, rfl, rfl, rfl, rfl, rfl, (max_eq_left done).symm, written, fun k _ => kept k, far⟩
    obtain ⟨within, same⟩ := List.getElem?_eq_some_iff.1 here
    rw [← same, List.set_getElem_self]

end

def capacity (fs : TarFs) (i : Nat) (file : TarFile) : Nat :=
  roundUp file.length + (refillLast fs i file).2.dummyfileLen

theorem Stored.widen {after : TarFile} {top wide : Nat} {buf : Bytes}
    (stored : Stored fs next i file after offset len buf top) (wider : top ≤ wide) :
    Stored fs next i file after offset len buf wide :=
  { stored with far := fun pos outside => stored.far pos (outside.imp_right wider.trans) }

theorem total_eq (offsetSmall : offset < 2 ^ 31) (lenSmall : len < 2 ^ 31) :
    toUlong (toInt ((offset : Int) + len)) = offset + len ∨
      2 ^ 31 ≤ offset + len ∧ 2 ^ 31 ≤ toUlong (toInt ((offset : Int) + len)) := by
  by_cases small : offset + len < 2 ^ 31
  · left
    rw [← Nat.cast_add, toInt_nat small, toUlong_nat (by omega)]
  refine .inr ⟨not_lt.1 small, ?_⟩
  by_contra low
  have range := toInt_range ((offset : Int) + len)
  have back := toInt_emod ((offset : Int) + len)
  have exact := (toUlong_small range.1 range.2 (not_le.1 low)).1
  omega

variable {filename : Bytes} (inv : FsInv fs) (found : findFile fs filename = some (i, file))
  (regular : file.regularFile = true)

include inv found regular

theorem writeFileContents_eq (driver : Driver) (buf : Bytes) (offsetSmall : offset < 2 ^ 31) (lenSmall : len < 2 ^ 31) :
    writeFileContents fs driver filename buf len offset =
      if file.length ≤ toUlong (toInt ((offset : Int) + len)) then
        if offset < capacity fs i file then
          storeContents (refillLast fs i file).1 driver i (refillLast fs i file).2 buf offset
            (toUlong (toInt ((offset : Int) + len))) (min len (capacity fs i file - offset))
        else ((len : Int), (refillLast fs i file).1)
      else storeContents fs driver i file buf offset file.length len := by
  have here := (findFile_spec found).2
  obtain ⟨after, there, still, length⟩ := refillLast_spec inv here regular
  obtain ⟨-, rounded, below⟩ := after.bounds there still
  have size := after.size
  have small := after.small
  rw [length] at rounded below
  have allowed : wrap (cielLength file.length + (refillLast fs i file).2.dummyfileLen) = capacity fs i file := by
    rw [capacity, rounded, wrap, Nat.mod_eq_of_lt (by omega)]
  have bound : capacity fs i file < 2 ^ 31 := by
    rw [capacity]
    omega
  have place : toUlong (offset : Int) = offset := toUlong_nat (by omega)
  have size64 : toUlong (len : Int) = len := toUlong_nat (by omega)
  have sums := total_eq offsetSmall lenSmall
  simp only [writeFileContents, found, allowed, place, size64]
  generalize toUlong (toInt ((offset : Int) + len)) = total at *
  generalize capacity fs i file = room at *
  by_cases inside : offset < room
  · have chosen : (if room < total then wrapSub room offset else len) = min len (room - offset) := by
      split_ifs
      · rw [wrapSub_eq (by omega) (by omega), min_eq_right (by omega)]
      · rw [min_eq_left (by omega)]
    rw [chosen]
  · simp only [if_neg inside]

theorem writeFileContents_stored (reliable : driver.Reliable fs.deviceSize) (buf : Bytes) (positive : 0 < len)
    (lenSmall : len < 2 ^ 31) (inside : offset < capacity fs i file) :
    ∃ next after, writeFileContents fs driver filename buf len offset =
        (((min len (capacity fs i file - offset) : Nat) : Int), next) ∧
      Stored fs next i file after offset (min len (capacity fs i file - offset)) buf
        (file.deviceOffset + capacity fs i file) := by
  have here := (findFile_spec found).2
  obtain ⟨after, there, still, -⟩ := refillLast_spec inv here regular
  obtain ⟨room, dirty, refill, wider, -⟩ := refillLast_eq inv here regular
  obtain ⟨-, -, below⟩ := after.bounds there still
  have size := after.size
  have small := after.small
  have covers := le_roundUp file.length
  have limit : capacity fs i file = roundUp file.length + room := by rw [capacity, refill]
  rw [limit] at inside ⊢
  rw [refill] at after there below size small
  dsimp only at below size small
  have sums := total_eq (by omega : offset < 2 ^ 31) lenSmall
  rw [writeFileContents_eq inv found regular driver buf (by omega) lenSmall, limit, if_pos inside, refill]
  generalize toUlong (toInt ((offset : Int) + len)) = total at *
  by_cases atEnd : file.length ≤ total
  · rw [if_pos atEnd]
    set n := min len (roundUp file.length + room - offset)
    obtain ⟨next, final, ran, stored⟩ := storeContents_stored after there regular reliable buf (by omega : 0 < n)
      (by dsimp only; omega : offset + n ≤ _) (by dsimp only; omega : total = _ -> _)
    have own : Stored fs next i file final offset n buf (file.deviceOffset + roundUp file.length + room) :=
      { stored with table := by rw [stored.table, List.set_set] }
    exact ⟨next, final, ran, own.widen (Nat.le_of_eq (Nat.add_assoc _ _ _))⟩
  · have whole : min len (roundUp file.length + room - offset) = len := min_eq_left (by omega)
    rw [if_neg atEnd, whole]
    obtain ⟨next, final, ran, stored⟩ := storeContents_stored inv here regular reliable buf positive
      (by omega : offset + len ≤ roundUp file.length + file.dummyfileLen) fun _ => (by omega : offset + len ≤ file.length)
    exact ⟨next, final, ran, stored.widen (by omega)⟩

end JinyKernel.Tarfs
