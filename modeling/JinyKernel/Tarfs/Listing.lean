import JinyKernel.Tarfs.Records

namespace JinyKernel.Tarfs

open List Option

structure Listed where
  name : Bytes
  length : Nat
  type : UInt8
  deviceOffset : Nat
  dummyfileLen : Nat
  deriving DecidableEq

def TarFile.listed (file : TarFile) : Listed :=
  ⟨file.str, file.length, file.type, file.deviceOffset, file.dummyfileLen⟩

structure Scanned (fs : TarFs) (records : List Record) (last : Nat) (files : List TarFile) (mark : Nat) (magic : Bytes) :
    Prop where
  files : ∃ first, first.name = rootFile.name ∧ first.archLinkname = rootFile.archLinkname ∧
    files.map TarFile.orphan = first :: ((entries [rootFile] 0 records).map trimSlash).map TarFile.orphan
  empty : records = [] -> mark = fs.filesystemSize
  mark : ∀ front record, records = front ++ [record] ->
    mark = record.mark last (record.entryAfter front)
  magic : last + headerSize ≤ fs.deviceSize -> magic.length = 8

variable {fs : TarFs} {records : List Record} {file : TarFile}

theorem scan_listed {last : Nat} (sound : Sound fs True records) (chain : Chain fs.device 0 (members records) last)
    (ends : Ends fs last) (below : last ≤ fs.deviceSize) (small : fs.deviceSize < 2 ^ 31)
    (count : records.length < maxTarFiles) : ∃ files mark magic, scanDeviceForfiles fs =
      some { fs with files := files, filesystemSize := mark, magic := magic } ∧
      Scanned fs records last files mark magic := by
  have start : (Scan.start fs).files = rootFile :: [] := rfl
  have first : Sound fs (([] : List TarFile) = []) records := by simpa using sound
  obtain ⟨final, ran, files, root, each⟩ :=
    scan_records first chain (by omega) start (by rw [length_nil]; omega) rfl
  obtain ⟨magic, scanned, length⟩ := scanDeviceForfiles_fold chain ends below small ran
  obtain ⟨first, name, link, -, passes⟩ := findParents_all rootFile (entries [rootFile] 0 records)
  refine ⟨_, _, magic, scanned, ⟨first, name, link, ?_⟩, root, fun front record split => ?_, length⟩
  · rw [files, length_cons, Nat.add_sub_cancel]
    exact passes
  · simpa using each front record split

structure Agrees (file raw : TarFile) : Prop where
  listed : file.listed = (trimSlash raw).listed
  regular : file.regularFile = true
  link : file.archLinkname.length = namsiz
  flagged : 0 < file.dummyfileLen -> file.dummyFile = true

variable {raw : TarFile} {other : TarFs} {first first' : Prop} {record : Record} {raws : List TarFile}

theorem Agrees.fields (agrees : Agrees file raw) : file.type = raw.type ∧
    file.length = raw.length ∧ file.deviceOffset = raw.deviceOffset ∧ file.dummyfileLen = raw.dummyfileLen := by
  have listed := agrees.listed
  obtain ⟨name, archLinkname, trimmed⟩ := trimSlash_fields raw
  rw [trimmed] at listed
  simp only [TarFile.listed, Listed.mk.injEq] at listed
  exact ⟨listed.2.2.1, listed.2.1, listed.2.2.2.1, listed.2.2.2.2⟩

theorem Agrees.name (agrees : Agrees file raw) (plain : file.type ≠ lfDir) : file.str = raw.str := by
  have listed := congrArg Listed.name agrees.listed
  rw [trimSlash_plain (agrees.fields.1 ▸ plain)] at listed
  exact listed

-- The records of the device are the entries of the table, and end at the mark.
structure Persisted (fs : TarFs) (records : List Record) : Prop where
  inv : FsInv fs
  root : ∃ root, fs.files.head? = some root ∧ root.name = rootFile.name ∧ root.archLinkname = rootFile.archLinkname
  table : List.Forall₂ Agrees fs.files.tail (entries [rootFile] 0 records)
  sound : Sound fs True records
  chain : Chain fs.device 0 (members records) fs.filesystemSize
  zeros : ∀ pos, fs.filesystemSize ≤ pos -> fs.device pos = 0
  magic : fs.magic.length = 8
  marks : Marks fs.dummyPrefix
  mount : fs.mntPoint ≠ []
  count : fs.files.length ≤ maxTarFiles

theorem Record.Sound.imp (sound : record.Sound fs first) (same : other.dummyPrefix = fs.dummyPrefix)
    (weaker : first -> first') : record.Sound other first' := by
  have marked (hdr : Bytes) : isDummy other hdr = isDummy fs hdr := by rw [isDummy, isDummy, same]
  exact ⟨sound.name, fun dummy => weaker (sound.kept (marked _ ▸ dummy)), fun dummy among =>
    (marked dummy).trans (sound.dummies dummy among), sound.bare⟩

theorem Sound.imp (sound : Sound fs first records) (same : other.dummyPrefix = fs.dummyPrefix)
    (weaker : first -> first') : Sound other first' records := by
  cases records with
  | nil => trivial
  | cons record rest => exact ⟨sound.1.imp same weaker, fun later among => (sound.2 later among).imp same id⟩

theorem Sound.mem (sound : Sound fs True records) (among : record ∈ records) : record.Sound fs True := by
  cases records with
  | nil => cases among
  | cons first rest =>
    rcases mem_cons.1 among with rfl | later
    · exact sound.1
    · exact (sound.2 record later).imp rfl fun _ => trivial

theorem agrees_getElem? {files : List TarFile} (agree : List.Forall₂ Agrees files raws) (k : Nat) :
    files[k]? = none ∧ raws[k]? = none ∨ ∃ file raw, files[k]? = some file ∧ raws[k]? = some raw ∧ Agrees file raw := by
  induction agree generalizing k with
  | nil => exact .inl ⟨rfl, rfl⟩
  | cons head _ ih =>
    cases k with
    | zero => exact .inr ⟨_, _, rfl, rfl, head⟩
    | succ k => exact ih k

variable {fs : TarFs} {records front back : List Record} {record : Record}

section

variable (persisted : Persisted fs records)

include persisted

theorem Persisted.small : fs.filesystemSize < 2 ^ 31 := by
  have size := persisted.inv.size
  have small := persisted.inv.small
  omega

theorem Persisted.length : fs.files.length = records.length + 1 := by
  obtain ⟨root, first, -⟩ := persisted.root
  have same := persisted.table.length_eq
  rw [length_entries, length_tail] at same
  cases files : fs.files with
  | nil => rw [files] at first; cases first
  | cons head rest => rw [files] at same; simpa using same

end

variable (persisted : Persisted fs records)

include persisted

section

variable (split : records = front ++ record :: back)

include split

theorem Persisted.around : Chain fs.device 0 (members front) (extent front) ∧
      Chain fs.device (extent front) record.members (extent front + record.size) ∧
      Chain fs.device (extent front + record.size) (members back) fs.filesystemSize := by
  have chain := persisted.chain
  rw [split, members_append] at chain
  obtain ⟨start, first, later⟩ := chain.split
  have begins : start = extent front := by rw [first.last_eq, sum_members, Nat.zero_add]
  obtain ⟨mid, own, rest⟩ := later.split
  have finish : mid = extent front + record.size := by rw [own.last_eq, begins]; rfl
  subst begins finish
  exact ⟨first, own, rest⟩

theorem Persisted.entry : ∃ file, fs.files[front.length + 1]? = some file ∧
      Agrees file (record.entryAfter front) := by
  have raw := entries_getElem? [rootFile] 0 front record back
  rw [← split, Nat.zero_add] at raw
  rcases agrees_getElem? persisted.table front.length with ⟨-, past⟩ | ⟨file, found, here, same, agrees⟩
  · rw [raw] at past
    cases past
  · rw [raw] at same
    cases same
    exact ⟨file, by rwa [getElem?_tail] at here, agrees⟩

theorem Persisted.agrees (here : fs.files[front.length + 1]? = some file) :
    Agrees file (record.entryAfter front) := by
  obtain ⟨file', there, agrees⟩ := persisted.entry split
  rw [here] at there
  cases there
  exact agrees

end

theorem Persisted.record_of {k : Nat} (here : fs.files[k + 1]? = some file) :
    ∃ front record back, records = front ++ record :: back ∧ front.length = k ∧
      Agrees file (record.entryAfter front) := by
  have within := (List.getElem?_eq_some_iff.1 here).1
  rw [persisted.length] at within
  have inside : k < records.length := by omega
  have split : records = records.take k ++ records.get ⟨k, inside⟩ :: records.drop (k + 1) := by simp
  have length : (records.take k).length = k := by
    rw [length_take]
    omega
  exact ⟨_, _, _, split, length, persisted.agrees split (length.symm ▸ here)⟩

end JinyKernel.Tarfs
