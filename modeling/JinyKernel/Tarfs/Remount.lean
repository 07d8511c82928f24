import JinyKernel.Tarfs.Persist
import JinyKernel.Tarfs.ReadBack

namespace JinyKernel.Tarfs

open List Option Run

section

variable {fs : TarFs} {root : TarFile} {filename name : Bytes}

end

section

variable {fs next : TarFs} {records : List Record} {driver : Driver} {file : TarFile} {i : Nat}

variable {offset len : Nat}

theorem Persisted.grow (persisted : Persisted fs records) {k : Nat} (here : fs.files[k + 1]? = some file)
    (regular : file.regularFile = true) (notLink : file.type ≠ lfLink) (notDir : file.type ≠ lfDir)
    (unshared : ∀ other ∈ fs.files.tail, other.type = lfLink -> other.deviceOffset ≠ file.deviceOffset)
    (reliable : driver.Reliable fs.deviceSize) {room : Nat} {dirty : Bool} (wider : file.dummyfileLen ≤ room)
    (refilled : room ≠ file.dummyfileLen -> file.dummyFile = true ∧
      file.deviceOffset + roundUp file.length + file.dummyfileLen = fs.filesystemSize) (buf : Bytes)
    (longer : file.length < offset + len) (fits : offset + len ≤ roundUp file.length + room) {mid : TarFs}
    (before : mid = { fs with
      files := fs.files.set (k + 1) { file with dummyfileLen := room, metadataDirty := dirty }
      filesystemSize := fs.filesystemSize + (room - file.dummyfileLen)
      device := laid fs.device (file.deviceOffset + offset) buf len }) (midInv : FsInv mid)
    (after : syncFileMetadata mid driver (k + 1)
      (grownFile { file with dummyfileLen := room, metadataDirty := dirty } (offset + len)) = next) (inv : FsInv next) :
    ∃ records', Persisted next records' := by
  obtain ⟨front, record, back, split, rfl, agrees⟩ := persisted.record_of here
  obtain ⟨-, -, rest⟩ := persisted.around split
  obtain ⟨-, begins, ends⟩ := persisted.own split here notDir notLink
  have named := persisted.named split here notDir notLink
  have restFits := rest.fits
  have there : mid.files[front.length + 1]? = some { file with dummyfileLen := room, metadataDirty := dirty } := by
    rw [before]
    exact List.getElem?_set_self (List.getElem?_eq_some_iff.1 here).1
  obtain ⟨blocks, -, below⟩ := midInv.bounds there regular
  dsimp only at below blocks
  have size := midInv.size
  have small := midInv.small
  obtain ⟨leftBlocks, total⟩ := grown_room blocks (by omega) longer fits
  simp only [grownFile] at after
  generalize (if roundUp file.length < offset + len then
    wrapSub room (cielLength (offset + len - roundUp file.length)) else room) = left at *
  generalize isNew : ({ file with length := offset + len, dummyfileLen := left, metadataDirty := true } : TarFile) =
      new at *
  have place : new.deviceOffset = file.deviceOffset := by rw [← isNew]
  have length : new.length = offset + len := by rw [← isNew]
  have kept : new.dummyfileLen = left := by rw [← isNew]
  have dirty : new.metadataDirty = true := by rw [← isNew]
  have rounds : left ≤ room := by
    have covers : roundUp file.length ≤ roundUp (offset + len) := by
      simp only [roundUp, blkSize]
      omega
    omega
  have storable : Storable new := by
    have str : new.str = file.str := by
      rw [← isNew]
      rfl
    refine ⟨⟨str ▸ named.short, str ▸ named.named, ?_⟩, ?_, ?_, ?_, by omega, kept ▸ leftBlocks,
      by rw [place, length, kept]; omega, fun left => ?_⟩
    · rw [← isNew]
      exact named.link
    iterate 3 rw [← isNew]; assumption
    rw [kept] at left
    have flag : file.dummyFile = true := by
      by_cases same : room = file.dummyfileLen
      · exact agrees.flagged (by omega)
      · exact (refilled same).1
    rw [← isNew]
    exact flag
  obtain ⟨device, synced, held, spared⟩ := sync_stored mid (front.length + 1) (by rw [before]; exact reliable) storable
    (by rw [before]; exact persisted.magic) (by rw [before]; exact persisted.marks) dirty
    (by rw [place, length, kept]; omega)
  have spared : ∀ pos, pos < new.deviceOffset - blkSize ∨
      new.deviceOffset + roundUp new.length + new.dummyfileLen ≤ pos ->
      device pos = fs.device pos := by
    intro pos outside
    rw [spared pos outside, before]
    exact laid_outside _ _ (by rw [place, length, kept] at outside; omega)
  rw [synced] at after
  rw [before] at after held
  dsimp only at after held
  rw [set_set] at after
  rw [← after] at inv ⊢
  refine ⟨_, persisted.renew split here storable ?_ ?_ place unshared ?_ ?_ ?_ ⟨held.own, held.dummy⟩ spared inv⟩
  · rw [← isNew]
    rfl
  · rw [← isNew]
  · by_cases same : room = file.dummyfileLen
    · exact .inr (by omega)
    left
    cases back with
    | nil => rfl
    | cons other back =>
      rw [members_cons, length_append, Record.members, length_cons] at restFits
      simp only [blkSize] at *
      omega
  · omega
  · rw [place, length, kept]
    omega

end

section

def gather (fs : TarFs) : List Bytes -> List Bytes × List Record
  | [] => ([], [])
  | hdr :: rest =>
    if isDummy fs hdr then (hdr :: (gather fs rest).1, (gather fs rest).2)
    else ([], ⟨hdr, (gather fs rest).1⟩ :: (gather fs rest).2)

def recordsOf (fs : TarFs) : List Bytes -> List Record
  | [] => []
  | hdr :: rest => ⟨hdr, (gather fs rest).1⟩ :: (gather fs rest).2

variable {fs : TarFs} {headers : List Bytes}

theorem gather_members (fs : TarFs) (headers : List Bytes) :
    (gather fs headers).1 ++ members (gather fs headers).2 = headers := by
  induction headers with
  | nil => rfl
  | cons hdr rest ih =>
    rw [gather]
    split_ifs
    · rw [cons_append, ih]
    · rw [nil_append, members_cons, Record.members, cons_append, ih]

theorem recordsOf_members (fs : TarFs) (headers : List Bytes) : members (recordsOf fs headers) = headers := by
  cases headers with
  | nil => rfl
  | cons hdr rest => rw [recordsOf, members_cons, Record.members, cons_append, gather_members]

theorem gather_dummies (fs : TarFs) (headers : List Bytes) :
    ∀ dummy ∈ (gather fs headers).1, isDummy fs dummy = true := by
  induction headers with
  | nil => simp [gather]
  | cons hdr rest ih =>
    rw [gather]
    split_ifs with dummy
    · simpa [dummy] using ih
    · simp

theorem gather_count (fs : TarFs) (headers : List Bytes) :
    (gather fs headers).2.length = (headers.filter fun hdr => !isDummy fs hdr).length := by
  induction headers with
  | nil => rfl
  | cons hdr rest ih =>
    rw [gather]
    split_ifs with dummy
    · simpa [dummy] using ih
    · simpa [dummy] using ih

theorem recordsOf_count (fs : TarFs) (headers : List Bytes) :
    (recordsOf fs headers).length = (entryHeaders fs headers).length := by
  cases headers with
  | nil => rfl
  | cons hdr rest => rw [recordsOf, entryHeaders, length_cons, length_cons, gather_count]

theorem LinksBare.tail {hdr : Bytes} (bare : LinksBare fs (hdr :: headers)) : LinksBare fs headers :=
  fun front link dummy rest same => bare (hdr :: front) link dummy rest (by rw [same]; rfl)

theorem gather_record {hdr : Bytes} (bare : LinksBare fs (hdr :: headers)) (short : (cstr hdr).length < namsiz)
    {first : Prop} (kept : isDummy fs hdr = true -> first) : Record.Sound fs first ⟨hdr, (gather fs headers).1⟩ := by
  refine ⟨short, kept, gather_dummies fs headers, fun link => ?_⟩
  cases headers with
  | nil => rfl
  | cons next rest =>
    have plain := bare [] hdr next rest rfl link
    simp [gather, plain]

section

variable (bare : LinksBare fs headers) (short : ∀ hdr ∈ headers, (cstr hdr).length < namsiz)

include bare short

theorem gather_sound : ∀ record ∈ (gather fs headers).2, record.Sound fs False := by
  induction headers with
  | nil => simp [gather]
  | cons hdr rest ih =>
    have later := ih bare.tail fun other among => short other (mem_cons_of_mem _ among)
    rw [gather]
    split_ifs with dummy
    · exact later
    intro record among
    rcases mem_cons.1 among with rfl | behind
    · exact gather_record bare (short hdr mem_cons_self) dummy
    · exact later record behind

theorem recordsOf_sound : Sound fs True (recordsOf fs headers) := by
  cases headers with
  | nil => trivial
  | cons hdr rest =>
    exact ⟨gather_record bare (short hdr mem_cons_self) fun _ => trivial,
      gather_sound bare.tail fun other among => short other (mem_cons_of_mem _ among)⟩

end

theorem trimSlash_link (file : TarFile) : (trimSlash file).archLinkname.length = file.archLinkname.length := by
  simp only [trimSlash, TarFile.setByte]
  split_ifs <;> simp

theorem Record.entry_link {record : Record} (length : record.hdr.length = headerSize)
    (before : List TarFile) (pos : Nat) :
    (record.entry before pos).archLinkname.length = namsiz := by
  have dummies (dummies : List Bytes) (file : TarFile) :
      (dummies.foldl addDummy file).archLinkname = file.archLinkname := by
    induction dummies generalizing file with
    | nil => rfl
    | cons dummy rest ih => exact ih (addDummy file dummy)
  have own : (trimSlash (newEntry pos record.hdr)).archLinkname.length = namsiz := by
    rw [trimSlash_link]
    simp [newEntry, field, length, headerSize, namsiz]
  rw [Record.entry, dummies]
  rcases resolveLink_fields before record.hdr (trimSlash (newEntry pos record.hdr)) with same | ⟨-, target, -, same⟩
  all_goals rw [same]; exact own

theorem entries_flagged {device : Nat -> UInt8} {records : List Record} {before : List TarFile} {pos last : Nat}
    (chain : Chain device pos (members records) last) (small : last < 2 ^ 31) :
    ∀ raw ∈ entries before pos records, raw.regularFile = true ∧ raw.archLinkname.length = namsiz ∧
      (0 < raw.dummyfileLen -> raw.dummyFile = true) := by
  induction records generalizing before pos with
  | nil => simp [entries]
  | cons record rest ih =>
    intro raw among
    obtain ⟨mid, own, later⟩ := chain.split
    have fits := later.fits
    rcases mem_cons.1 among with rfl | behind
    · have fields := record.entry_fields own (by omega) before
      exact ⟨fields.regular, record.entry_link (by rw [← own.1, length_headerAt]) before pos, fields.flagged⟩
    · have size := own.last_eq
      subst size
      exact ih later raw behind

theorem agrees_of_orphans {files raws : List TarFile}
    (orphans : files.map TarFile.orphan = (raws.map trimSlash).map TarFile.orphan)
    (flagged : ∀ raw ∈ raws, raw.regularFile = true ∧ raw.archLinkname.length = namsiz ∧
      (0 < raw.dummyfileLen -> raw.dummyFile = true)) : List.Forall₂ Agrees files raws := by
  induction raws generalizing files with
  | nil =>
    obtain rfl := map_eq_nil_iff.1 orphans
    exact .nil
  | cons raw raws ih =>
    cases files with
    | nil => cases orphans
    | cons file files =>
      simp only [map_cons, cons.injEq] at orphans
      obtain ⟨regular, link, flag⟩ := flagged raw mem_cons_self
      obtain ⟨name, archLinkname, trimmed⟩ := trimSlash_fields raw
      have listed := congrArg TarFile.listed orphans.1
      have sameLink : file.archLinkname.length = (trimSlash raw).archLinkname.length :=
        congrArg (fun orphan => orphan.archLinkname.length) orphans.1
      refine .cons ⟨listed, ?_, ?_, ?_⟩ (ih orphans.2 fun other among => flagged other (mem_cons_of_mem _ among))
      · exact (congrArg TarFile.regularFile orphans.1).trans (by rw [trimmed]; exact regular)
      · rw [sameLink, trimSlash_link, link]
      have room := congrArg TarFile.dummyfileLen orphans.1
      have sameFlag := congrArg TarFile.dummyFile orphans.1
      rw [trimmed] at room sameFlag
      intro left
      exact sameFlag.trans (flag (room ▸ left))

end

-- Behind the archive are zeros, no dummy file ends it or stands behind a link, and no name fills its array.
structure Volume.Recordable (volume : Volume) : Prop where
  room : (entryHeaders volume.fs volume.members).length < maxTarFiles
  bare : LinksBare volume.fs volume.members
  last : ∀ front hdr, volume.members = front ++ [hdr] -> front ≠ [] -> isDummy volume.fs hdr = false
  short : ∀ hdr ∈ volume.members, (cstr hdr).length < namsiz
  zeros : ∀ pos, (volume.members.map span).sum ≤ pos -> volume.device pos = 0
  marks : Marks volume.dummyPrefix
  mount : volume.mntPoint ≠ []

theorem Volume.Recordable.persisted {volume : Volume} (recordable : volume.Recordable) :
    ∃ fs records, scanDeviceForfiles volume.fs = some fs ∧ Persisted fs records := by
  obtain ⟨last, chain, ends, below⟩ := volume.archive.chain
  have small := volume.small
  obtain ⟨fs, scanned, inv⟩ := volume.scanned recordable.room recordable.bare.noLinkedDummy
  have sound := recordsOf_sound recordable.bare recordable.short
  have count := recordsOf_count volume.fs volume.members
  have same := recordsOf_members volume.fs volume.members
  have size : last = (volume.members.map span).sum := by rw [chain.last_eq, Nat.zero_add]
  generalize recordsOf volume.fs volume.members = records at *
  rw [← same] at chain
  have room := recordable.room
  have bound : last ≤ volume.deviceSize := by
    have low : last + 2 * blkSize ≤ volume.deviceSize := below
    omega
  obtain ⟨files, mark, magic, again, listed⟩ := scan_listed sound chain ends bound small (by omega)
  cases again.symm.trans scanned
  obtain ⟨first, name, link, orphans⟩ := listed.files
  obtain ⟨root, rest, rfl⟩ : ∃ root rest, files = root :: rest := by
    cases files with
    | nil => cases orphans
    | cons root rest => exact ⟨root, rest, rfl⟩
  rw [map_cons, cons.injEq] at orphans
  have table := agrees_of_orphans orphans.2 (entries_flagged chain (by omega))
  -- The archive ends with an entry, so the mark is where it ends.
  have marked : mark = last := by
    rcases eq_nil_or_concat records with rfl | ⟨front, record, split⟩
    · exact (listed.empty rfl).trans chain
    rw [concat_eq_append] at split
    rw [listed.mark front record split, Record.mark, if_pos]
    rcases eq_nil_or_concat record.dummies with bare | ⟨dummies, dummy, ends⟩
    · exact bare
    have marks := (sound.mem (split ▸ mem_append_right front (mem_singleton_self record))).dummies dummy
      (by simp [ends])
    have plain := recordable.last (Tarfs.members front ++ record.hdr :: dummies) dummy
      (by rw [← same, split, members_append, members_cons, Record.members, ends]; simp [Tarfs.members]) (by simp)
    exact absurd (marks.symm.trans plain) (by simp)
  subst marked
  refine ⟨_, records, scanned, inv, ⟨root, rfl, ?_, ?_⟩, table, sound.imp rfl id, chain, ?_, listed.magic ?_,
    recordable.marks, recordable.mount, ?_⟩
  · exact (congrArg TarFile.name orphans.1).trans name
  · exact (congrArg TarFile.archLinkname orphans.1).trans link
  · exact fun pos above => recordable.zeros pos (size ▸ above)
  · have sizes : blkSize = 512 ∧ headerSize = 495 := ⟨rfl, rfl⟩
    have low : mark + 2 * blkSize ≤ volume.deviceSize := below
    exact (by omega : mark + headerSize ≤ volume.deviceSize)
  have length := table.length_eq
  rw [length_entries] at length
  simp only [length_cons]
  omega

def block : Bytes := List.replicate 512 120

end JinyKernel.Tarfs
