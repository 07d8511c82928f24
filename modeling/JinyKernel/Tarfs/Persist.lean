import JinyKernel.Tarfs.Contents
import JinyKernel.Tarfs.Listing
import Mathlib.Data.List.Induction

namespace JinyKernel.Tarfs

open List

def fileRecord (fs : TarFs) (file : TarFile) : Record where
  hdr := (storeToHeader file fs.magic fs.dummyPrefix).1
  dummies := if 0 < file.dummyfileLen then [(storeToHeader file fs.magic fs.dummyPrefix).2] else []

structure Storable (file : TarFile) : Prop where
  named : Named file
  regular : file.regularFile = true
  notLink : file.type ≠ lfLink
  notDir : file.type ≠ lfDir
  header : blkSize ≤ file.deviceOffset
  blocks : blkSize ∣ file.dummyfileLen
  small : file.deviceOffset + roundUp file.length + file.dummyfileLen < 2 ^ 31
  flagged : 0 < file.dummyfileLen -> file.dummyFile = true

structure OnDevice (fs : TarFs) (device : Nat -> UInt8) (file : TarFile) : Prop where
  own : headerAt device (file.deviceOffset - blkSize) = (storeToHeader file fs.magic fs.dummyPrefix).1
  dummy : 0 < file.dummyfileLen ->
    headerAt device (file.deviceOffset + roundUp file.length) = (storeToHeader file fs.magic fs.dummyPrefix).2

section

variable {fs : TarFs} {device : Nat -> UInt8} {file : TarFile}

theorem Storable.length_small (storable : Storable file) : file.length < 8 ^ 11 := by
  have small := storable.small
  have covers := le_roundUp file.length
  omega

theorem getD_zero_iff (hdr : Bytes) : hdr.getD 0 0 ≠ 0 ↔ cstr hdr ≠ [] := by
  cases hdr with
  | nil => simp [cstr]
  | cons c rest => by_cases zero : c = 0 <;> simp [cstr, zero]

theorem fileRecord_reads (storable : Storable file) (magic : fs.magic.length = 8) :
    Reads (fileRecord fs file).hdr file.str file.length ∧ (fileRecord fs file).hdr.getD 156 0 = file.type :=
  storeToHeader_reads storable.named magic storable.length_small fs.dummyPrefix

theorem dummy_span {hdr : Bytes} {room : Nat} (blocks : blkSize ∣ room) (positive : 0 < room)
    (size : fileSize hdr = (room - blkSize : Nat)) : span hdr = room := by
  rw [span, size, Int.toNat_natCast]
  simp only [roundUp, blkSize] at *
  omega

variable (storable : Storable file) (magic : fs.magic.length = 8) (marks : Marks fs.dummyPrefix)

include storable magic marks

theorem fileRecord_room : (fileRecord fs file).room = file.dummyfileLen := by
  have small := storable.small
  rw [Record.room, fileRecord]
  split_ifs with some
  · obtain ⟨-, -, -, size⟩ := storeToHeader_dummy storable.named magic marks
      (Nat.le_of_dvd some storable.blocks) (by omega)
    simpa using dummy_span storable.blocks some size
  · exact (Nat.eq_zero_of_not_pos some).symm

theorem fileRecord_size : (fileRecord fs file).size = blkSize + roundUp file.length + file.dummyfileLen := by
  rw [Record.size, fileRecord_room storable magic marks, span, (fileRecord_reads storable magic).1.size,
    Int.toNat_natCast]

theorem fileRecord_chain (onDevice : OnDevice fs device file) :
    Chain device (file.deviceOffset - blkSize) (fileRecord fs file).members
      (file.deviceOffset + roundUp file.length + file.dummyfileLen) := by
  have small := storable.small
  have header := storable.header
  obtain ⟨reads, -⟩ := fileRecord_reads storable magic
  have next : file.deviceOffset - blkSize + blkSize + roundUp (fileSize (fileRecord fs file).hdr).toNat =
      file.deviceOffset + roundUp file.length := by
    rw [reads.size, Int.toNat_natCast]
    omega
  refine ⟨onDevice.own, ?_, ?_, ?_⟩
  · rw [getD_zero_iff, reads.name]
    exact storable.named.named
  · rw [reads.size]
    exact Int.natCast_nonneg _
  rw [next, fileRecord]
  split_ifs with some
  · obtain ⟨-, first, -, size⟩ := storeToHeader_dummy storable.named magic marks
      (Nat.le_of_dvd some storable.blocks) (by omega)
    have spanned := dummy_span storable.blocks some size
    refine ⟨onDevice.dummy some, first, by rw [size]; exact Int.natCast_nonneg _, ?_⟩
    rw [span] at spanned
    change _ = _
    omega
  · change _ = _
    omega

theorem fileRecord_sound {first : Prop} (kept : (utStrstr file.str fs.dummyPrefix).isSome = true -> first) :
    (fileRecord fs file).Sound fs first := by
  have small := storable.small
  obtain ⟨reads, type⟩ := fileRecord_reads storable magic
  refine ⟨?_, ?_, ?_, fun link => absurd (type.symm.trans link) storable.notLink⟩
  · rw [reads.name]
    exact storable.named.short
  · rw [isDummy, reads.name]
    exact kept
  rw [fileRecord]
  split_ifs with some
  · obtain ⟨-, -, marked, -⟩ := storeToHeader_dummy storable.named magic marks
      (Nat.le_of_dvd some storable.blocks) (by omega)
    simpa [isDummy] using marked
  · simp

theorem fileRecord_agrees (onDevice : OnDevice fs device file) (before : List TarFile) :
    Agrees { file with metadataDirty := false } ((fileRecord fs file).entry before (file.deviceOffset - blkSize)) := by
  have small := storable.small
  have header := storable.header
  obtain ⟨reads, type⟩ := fileRecord_reads storable magic
  have chain := fileRecord_chain storable magic marks onDevice
  have fields := (fileRecord fs file).entry_fields chain small before
  have short := reads.name ▸ storable.named.short
  have str := (fileRecord fs file).entry_str chain small short before (type ▸ storable.notDir)
  have ownType := fields.type.trans type
  obtain ⟨place, length⟩ := fields.place (ownType ▸ storable.notLink)
  have back : file.deviceOffset - blkSize + blkSize = file.deviceOffset := by omega
  refine ⟨?_, storable.regular, storable.named.link, storable.flagged⟩
  rw [trimSlash_plain (ownType ▸ storable.notDir)]
  simp only [TarFile.listed, str, reads.name, length, reads.size, Int.toNat_natCast, ownType, place, fields.room,
    fileRecord_room storable magic marks, back]
  rfl

end

variable {file new : TarFile} {fs : TarFs} {front back records : List Record} {record : Record} {device : Nat -> UInt8}

theorem agrees_set {files raws : List TarFile} (agree : List.Forall₂ Agrees files raws) {raw : TarFile}
    (new : Agrees file raw) (k : Nat) : List.Forall₂ Agrees (files.set k file) (raws.set k raw) := by
  induction agree generalizing k with
  | nil => exact .nil
  | cons head tail ih =>
    cases k with
    | zero => exact .cons new tail
    | succ k => exact .cons head (ih k)

theorem Sound.replace {new : Record} (sound : Sound fs True (front ++ record :: back))
    (renewed : ∀ first, record.Sound fs first -> new.Sound fs first) : Sound fs True (front ++ new :: back) := by
  cases front with
  | nil => exact ⟨renewed True sound.1, sound.2⟩
  | cons other front =>
    refine ⟨sound.1, fun later among => ?_⟩
    rcases mem_append.1 among with before | rest
    · exact sound.2 later (mem_append_left _ before)
    · rcases mem_cons.1 rest with rfl | behind
      · exact renewed False (sound.2 record (by simp))
      · exact sound.2 later (by simp [behind])

theorem entries_replace {new : Record} {place : Nat}
    (name : (new.entryAfter front).str =
      (record.entryAfter front).str)
    (there : (record.entryAfter front).deviceOffset = place)
    (size : back = [] ∨ new.size = record.size)
    (unshared : ∀ raw ∈ entries [rootFile] 0 (front ++ record :: back), raw.type = lfLink -> raw.deviceOffset ≠ place) :
    entries [rootFile] 0 (front ++ new :: back) = (entries [rootFile] 0 (front ++ record :: back)).set front.length
      (new.entryAfter front) := by
  rw [entries_append] at unshared
  rw [entries_append, entries_append, set_append_right _ _ (by rw [length_entries]), length_entries, Nat.sub_self,
    Nat.zero_add, entries, entries, set_cons_zero]
  refine congrArg (entries [rootFile] 0 front ++ ·) (congrArg (_ :: ·) ?_)
  rcases size with rfl | size
  · rfl
  have replaced : List.Forall₂ (Replaces place)
      ([rootFile] ++ entries [rootFile] 0 front ++ [new.entry ([rootFile] ++ entries [rootFile] 0 front) (extent front)])
      ([rootFile] ++ entries [rootFile] 0 front ++
        [record.entry ([rootFile] ++ entries [rootFile] 0 front) (extent front)]) :=
    rel_append (List.forall₂_same.2 fun _ _ => .inl rfl) (.cons (.inr ⟨name, there⟩) .nil)
  rw [size]
  refine entries_replaced replaced fun raw among => unshared raw (mem_append_right _ ?_)
  rw [Nat.zero_add]
  exact mem_cons_of_mem _ among

section

variable {fs : TarFs} {records front back : List Record} {record : Record} {file : TarFile}

variable (persisted : Persisted fs records) (split : records = front ++ record :: back)
  (here : fs.files[front.length + 1]? = some file) (notDir : file.type ≠ lfDir) (notLink : file.type ≠ lfLink)

include persisted split here notDir notLink

theorem Persisted.own : file.str = cstr record.hdr ∧ file.deviceOffset = extent front + blkSize ∧
      file.deviceOffset + roundUp file.length + file.dummyfileLen = extent front + record.size := by
  obtain ⟨-, own, rest⟩ := persisted.around split
  have agrees := persisted.agrees split here
  have small : extent front + record.size < 2 ^ 31 := lt_of_le_of_lt (by have fits := rest.fits; omega) persisted.small
  have fields := record.entry_fields own small (rootFile :: entries [rootFile] 0 front)
  obtain ⟨sameType, sameLength, samePlace, sameRoom⟩ := agrees.fields
  have sound := persisted.sound.mem (split ▸ mem_append_right front mem_cons_self)
  obtain ⟨place, length⟩ := fields.place (sameType ▸ notLink)
  refine ⟨?_, samePlace.trans place, ?_⟩
  · exact (agrees.name notDir).trans (record.entry_str own small sound.name _ (fields.type ▸ sameType ▸ notDir))
  · have size : record.size = blkSize + roundUp (fileSize record.hdr).toNat + record.room := rfl
    rw [samePlace, place, sameLength, length, sameRoom, fields.room]
    omega

theorem Persisted.named : Named file := by
  obtain ⟨str, -⟩ := persisted.own split here notDir notLink
  obtain ⟨-, own, -⟩ := persisted.around split
  have agrees := persisted.agrees split here
  have sound := persisted.sound.mem (split ▸ mem_append_right front mem_cons_self)
  exact ⟨str ▸ sound.name, str ▸ (getD_zero_iff _).1 own.2.1, agrees.link⟩

end

theorem Persisted.renew (persisted : Persisted fs records) (split : records = front ++ record :: back)
    (here : fs.files[front.length + 1]? = some file) (storable : Storable new) (name : new.str = file.str)
    (type : new.type = file.type) (place : new.deviceOffset = file.deviceOffset)
    (unshared : ∀ other ∈ fs.files.tail, other.type = lfLink -> other.deviceOffset ≠ file.deviceOffset) {mark : Nat}
    (grows : back = [] ∨ mark = fs.filesystemSize) (higher : fs.filesystemSize ≤ mark)
    (total : new.deviceOffset + roundUp new.length + new.dummyfileLen =
      extent front + record.size + (mark - fs.filesystemSize))
    (onDevice : OnDevice fs device new)
    (same : ∀ pos, pos < new.deviceOffset - blkSize ∨ new.deviceOffset + roundUp new.length + new.dummyfileLen ≤ pos ->
      device pos = fs.device pos)
    (inv : FsInv { fs with
      files := fs.files.set (front.length + 1) { new with metadataDirty := false }
      filesystemSize := mark
      device := device }) :
    Persisted { fs with
      files := fs.files.set (front.length + 1) { new with metadataDirty := false }
      filesystemSize := mark
      device := device } (front ++ fileRecord fs new :: back) := by
  have notLink := type ▸ storable.notLink
  have notDir := type ▸ storable.notDir
  obtain ⟨first, own, rest⟩ := persisted.around split
  have agrees := persisted.agrees split here
  obtain ⟨str, begin, -⟩ := persisted.own split here notDir notLink
  obtain ⟨-, -, samePlace, -⟩ := agrees.fields
  have begins : new.deviceOffset - blkSize = extent front := by omega
  have size := fileRecord_size storable persisted.magic persisted.marks
  have chain := fileRecord_chain storable persisted.magic persisted.marks onDevice
  have renewed := fileRecord_agrees storable persisted.magic persisted.marks onDevice
    (rootFile :: entries [rootFile] 0 front)
  rw [begins] at chain renewed
  have replaced : entries [rootFile] 0 (front ++ fileRecord fs new :: back) = (entries [rootFile] 0 records).set
      front.length ((fileRecord fs new).entryAfter front) := by
    rw [split]
    refine entries_replace ?_ samePlace.symm (grows.imp_right fun same => by rw [size]; omega) fun raw among link => ?_
    · rw [← renewed.name storable.notDir, ← agrees.name notDir]
      exact name
    rw [← split] at among
    obtain ⟨k, at'⟩ := mem_iff_getElem?.1 among
    rcases agrees_getElem? persisted.table k with ⟨-, past⟩ | ⟨other, found, listed, same, other_agrees⟩
    · rw [at'] at past
      cases past
    rw [at'] at same
    cases same
    obtain ⟨otherType, -, otherPlace, -⟩ := other_agrees.fields
    rw [← otherPlace]
    exact unshared other (mem_of_getElem? listed) (otherType.trans link)
  refine ⟨inv, ?_, ?_, ?_, ?_, ?_, persisted.magic, persisted.marks, persisted.mount, ?_⟩
  · obtain ⟨root, head, rootName, rootLink⟩ := persisted.root
    exact ⟨root, by cases files : fs.files <;> simp_all, rootName, rootLink⟩
  · have tails : (fs.files.set (front.length + 1) { new with metadataDirty := false }).tail =
        fs.files.tail.set front.length { new with metadataDirty := false } := by cases fs.files <;> rfl
    rw [replaced]
    exact tails ▸ agrees_set persisted.table renewed _
  · have sounds : Sound fs True (front ++ fileRecord fs new :: back) := by
      refine (split ▸ persisted.sound).replace fun first was => ?_
      refine fileRecord_sound storable persisted.magic persisted.marks fun dummy => was.kept ?_
      rwa [isDummy, ← str, ← name]
    exact sounds.imp rfl id
  · rw [members_append, members_cons]
    refine (first.congr fun pos _ below => same pos (.inl (by omega))).append (chain.append ?_)
    rcases grows with rfl | unmoved
    · have last : extent front + record.size = fs.filesystemSize := rest
      change _ = _
      dsimp only
      omega
    · rw [total, unmoved, Nat.sub_self, Nat.add_zero]
      exact rest.congr fun pos above _ => same pos (.inr (by omega))
  · intro pos above
    have fits := rest.fits
    dsimp only at above ⊢
    rw [same pos (.inr (by omega))]
    exact persisted.zeros pos (by omega)
  · simpa using persisted.count

theorem Sound.snoc (sound : Sound fs True records) (last : record.Sound fs False) :
    Sound fs True (records ++ [record]) := by
  cases records with
  | nil => exact ⟨last.imp rfl fun _ => trivial, by simp⟩
  | cons first rest =>
    refine ⟨sound.1, fun later among => ?_⟩
    rcases mem_append.1 among with before | only
    · exact sound.2 later before
    · exact mem_singleton.1 only ▸ last

theorem Persisted.append (persisted : Persisted fs records) (storable : Storable new)
    (fresh : utStrstr new.str fs.dummyPrefix = none) (place : new.deviceOffset = fs.filesystemSize + blkSize)
    {mark : Nat} (total : new.deviceOffset + roundUp new.length + new.dummyfileLen = mark)
    (onDevice : OnDevice fs device new)
    (same : ∀ pos, pos < fs.filesystemSize ∨ mark ≤ pos -> device pos = fs.device pos)
    (free : fs.files.length < maxTarFiles)
    (inv : FsInv { fs with
      files := fs.files ++ [{ new with metadataDirty := false }]
      filesystemSize := mark
      device := device }) :
    Persisted { fs with
      files := fs.files ++ [{ new with metadataDirty := false }]
      filesystemSize := mark
      device := device } (records ++ [fileRecord fs new]) := by
  have ends : fs.filesystemSize = extent records := by rw [persisted.chain.last_eq, sum_members, Nat.zero_add]
  have begins : new.deviceOffset - blkSize = fs.filesystemSize := by omega
  have chain := fileRecord_chain storable persisted.magic persisted.marks onDevice
  have agrees := fileRecord_agrees storable persisted.magic persisted.marks onDevice
    (rootFile :: entries [rootFile] 0 records)
  rw [begins] at chain agrees
  obtain ⟨root, head, rootName, rootLink⟩ := persisted.root
  obtain ⟨rest, files⟩ := head?_eq_some_iff.1 head
  refine ⟨inv, ⟨root, by simp [files], rootName, rootLink⟩, ?_, ?_, ?_, ?_, persisted.magic, persisted.marks,
    persisted.mount, by simpa using Nat.succ_le_of_lt free⟩
  · have table := persisted.table
    rw [files, tail_cons] at table
    simp only [files, cons_append, tail_cons, entries_append, entries, Nat.zero_add]
    exact rel_append table (.cons (ends ▸ agrees) .nil)
  · have sounds : Sound fs True (records ++ [fileRecord fs new]) := by
      refine persisted.sound.snoc (fileRecord_sound storable persisted.magic persisted.marks fun dummy => ?_)
      rw [fresh] at dummy
      cases dummy
    exact sounds.imp rfl id
  · rw [members_append, members_cons]
    refine (persisted.chain.congr fun pos _ below => same pos (.inl below)).append (chain.append ?_)
    exact total
  · intro pos above
    dsimp only at above ⊢
    rw [same pos (.inr above)]
    exact persisted.zeros pos (by omega)

theorem Persisted.overwrite (persisted : Persisted fs records) (split : records = front ++ record :: back)
    (same : ∀ pos, pos < extent front + blkSize ∨ extent front + blkSize + (fileSize record.hdr).toNat ≤ pos ->
      device pos = fs.device pos) : Persisted { fs with device := device } records := by
  obtain ⟨first, own, rest⟩ := persisted.around split
  have restFits := rest.fits
  have covers := le_roundUp ((fileSize record.hdr).toNat)
  have size : record.size = blkSize + roundUp (fileSize record.hdr).toNat + record.room := rfl
  have ownChain : Chain device (extent front) record.members (extent front + record.size) := by
    obtain ⟨read, named, valid, later⟩ := own
    refine ⟨(headerAt_congr fun k within => same _ (.inl ?_)).trans read, named, valid,
      later.congr fun pos above _ => same pos (.inr (by omega))⟩
    simp only [headerSize, blkSize] at *
    omega
  refine ⟨persisted.inv.with_device device, persisted.root, persisted.table, persisted.sound.imp rfl id, ?_, ?_,
    persisted.magic, persisted.marks, persisted.mount, persisted.count⟩
  · rw [split, members_append, members_cons]
    exact (first.congr fun pos _ below => same pos (.inl (by omega))).append
      (ownChain.append (rest.congr fun pos above _ => same pos (.inr (by omega))))
  intro pos above
  dsimp only at above ⊢
  rw [same pos (.inr (by omega))]
  exact persisted.zeros pos above

theorem Persisted.touch (persisted : Persisted fs records) {k : Nat} (here : fs.files[k + 1]? = some file)
    (listed : new.listed = file.listed) (regular : new.regularFile = file.regularFile)
    (link : new.archLinkname = file.archLinkname) (flag : new.dummyFile = file.dummyFile)
    (inv : FsInv { fs with files := fs.files.set (k + 1) new }) :
    Persisted { fs with files := fs.files.set (k + 1) new } records := by
  obtain ⟨front, record, back, split, rfl, agrees⟩ := persisted.record_of here
  have raw := entries_getElem? [rootFile] 0 front record back
  rw [← split, Nat.zero_add] at raw
  have room : new.dummyfileLen = file.dummyfileLen := congrArg Listed.dummyfileLen listed
  have still : Agrees new (record.entryAfter front) :=
    ⟨listed.trans agrees.listed, regular.trans agrees.regular, link ▸ agrees.link,
      fun left => flag.trans (agrees.flagged (room ▸ left))⟩
  refine ⟨inv, ?_, ?_, persisted.sound.imp rfl id, persisted.chain, persisted.zeros, persisted.magic, persisted.marks,
    persisted.mount, by simpa using persisted.count⟩
  · obtain ⟨root, head, rootName, rootLink⟩ := persisted.root
    exact ⟨root, by cases files : fs.files <;> simp_all, rootName, rootLink⟩
  have tails : (fs.files.set (front.length + 1) new).tail = fs.files.tail.set front.length new := by
    cases fs.files <;> rfl
  have kept : (entries [rootFile] 0 records).set front.length
      (record.entryAfter front) = entries [rootFile] 0 records := by
    obtain ⟨within, same⟩ := List.getElem?_eq_some_iff.1 raw
    change (entries [rootFile] 0 records).set front.length (record.entry ([rootFile] ++ _) _) = _
    rw [← same, set_getElem_self]
  have table := agrees_set persisted.table still front.length
  rw [kept] at table
  exact tails ▸ table

variable {fs : TarFs} {driver : Driver} {file : TarFile}

theorem writeToDevice_header (reliable : driver.Reliable fs.deviceSize) {pos : Nat} {hdr : Bytes}
    (length : hdr.length = headerSize) (fits : pos + headerSize ≤ fs.deviceSize) :
    headerAt (writeToDevice fs driver pos hdr headerSize).2.device pos = hdr := by
  have stores := reliable.whole pos headerSize (by omega) (by omega) (by omega)
  have cells : headerAt (writeToDevice fs driver pos hdr headerSize).2.device pos = hdr.take headerSize := by
    refine Memory.window_eq_take 0 (Nat.le_of_eq length.symm) fun k within => ?_
    simp only [writeToDevice, stores]
    rw [if_pos (by omega)]
    congr 1
    omega
  rw [cells, ← length, take_length]

theorem sync_stored (fs : TarFs) (i : Nat) (reliable : driver.Reliable fs.deviceSize) (storable : Storable file)
    (magic : fs.magic.length = 8) (marks : Marks fs.dummyPrefix) (dirty : file.metadataDirty = true)
    (fits : file.deviceOffset + roundUp file.length + file.dummyfileLen ≤ fs.deviceSize) :
    ∃ device, syncFileMetadata fs driver i file =
        { fs with files := fs.files.set i { file with metadataDirty := false }, device := device } ∧
      OnDevice fs device file ∧ ∀ pos, pos < file.deviceOffset - blkSize ∨
        file.deviceOffset + roundUp file.length + file.dummyfileLen ≤ pos -> device pos = fs.device pos := by
  have small := storable.small
  have header := storable.header
  have sizes : blkSize = 512 ∧ headerSize = 495 := ⟨rfl, rfl⟩
  have own := (fileRecord_reads storable magic).1.length
  have front : (file.deviceOffset : Int) - blkSize = (file.deviceOffset - blkSize : Nat) := by omega
  have held : OnDevice fs (syncFileMetadata fs driver i file).device file := by
    simp only [syncFileMetadata, dirty, Bool.true_eq_false, if_false]
    constructor
    · have spared := writeDummyBlock_spares reliable.honest
        (writeMetaBlock fs driver file (storeToHeader file fs.magic fs.dummyPrefix).1) storable.regular (by omega)
        storable.blocks (storeToHeader file fs.magic fs.dummyPrefix).2
      refine (headerAt_congr fun k within => spared _ (.inl (by omega))).trans ?_
      rw [writeMetaBlock, if_pos storable.regular, meta_offset (by omega), front]
      exact writeToDevice_header reliable own (by omega)
    intro left
    have dummy := (storeToHeader_dummy storable.named magic marks (Nat.le_of_dvd left storable.blocks) (by omega)).1
    have room := Nat.le_of_dvd left storable.blocks
    generalize later : writeMetaBlock fs driver file (storeToHeader file fs.magic fs.dummyPrefix).1 = mid
    have device : mid.deviceSize = fs.deviceSize := by
      obtain ⟨device, same⟩ := writeToDevice_fs fs driver (toInt (wrapSub file.deviceOffset blkSize))
        (storeToHeader file fs.magic fs.dummyPrefix).1 headerSize
      rw [← later, writeMetaBlock, if_pos storable.regular, same]
    have reliable' : driver.Reliable mid.deviceSize := device ▸ reliable
    have bound : file.deviceOffset + roundUp file.length < 2 ^ 31 := by omega
    simp only [writeDummyBlock, storable.regular, if_true, dummy_offset bound]
    rw [if_pos ⟨storable.flagged left, left⟩]
    exact writeToDevice_header reliable' dummy (by omega)
  obtain ⟨device, synced⟩ := syncFileMetadata_fs fs driver i dirty
  refine ⟨device, synced, by rwa [synced] at held, fun pos outside => ?_⟩
  have spared := sync_device reliable.honest fs i storable.regular dirty (by omega) storable.blocks
    (outside.imp_right Or.inl)
  rwa [synced] at spared

end JinyKernel.Tarfs
