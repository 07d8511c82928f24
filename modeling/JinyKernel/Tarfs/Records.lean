import JinyKernel.Tarfs.Codec
import Mathlib.Data.List.Forall2

namespace JinyKernel.Tarfs

open List

structure Record where
  hdr : Bytes
  dummies : List Bytes

def span (hdr : Bytes) : Nat := blkSize + roundUp (fileSize hdr).toNat

variable (record : Record)

def Record.members : List Bytes := record.hdr :: record.dummies

def Record.room : Nat := (record.dummies.map span).sum

def Record.size : Nat := span record.hdr + record.room

variable (before : List TarFile)

def Record.entry (pos : Nat) : TarFile :=
  record.dummies.foldl addDummy (resolveLink before record.hdr (trimSlash (newEntry pos record.hdr)))

def entries : List TarFile -> Nat -> List Record -> List TarFile
  | _, _, [] => []
  | before, pos, record :: rest =>
    record.entry before pos :: entries (before ++ [record.entry before pos]) (pos + record.size) rest

variable (records : List Record)

def members : List Bytes := records.flatMap Record.members

def extent : Nat := (records.map Record.size).sum

abbrev Record.entryAfter (front : List Record) : TarFile :=
  record.entry (rootFile :: entries [rootFile] 0 front) (extent front)

theorem length_entries (pos : Nat) (records : List Record) :
    (entries before pos records).length = records.length := by
  induction records generalizing before pos with
  | nil => rfl
  | cons record rest ih => rw [entries, length_cons, length_cons, ih]

theorem entries_append (pos : Nat) (front back : List Record) : entries before pos (front ++ back) =
      entries before pos front ++ entries (before ++ entries before pos front) (pos + extent front) back := by
  induction front generalizing before pos with
  | nil => simp [entries, extent]
  | cons record rest ih =>
    simp [entries, ih, extent, Nat.add_assoc]

theorem members_append (front back : List Record) : members (front ++ back) = members front ++ members back :=
  flatMap_append

theorem members_cons (rest : List Record) : members (record :: rest) = record.members ++ members rest :=
  flatMap_cons

theorem sum_members : ((members records).map span).sum = extent records := by
  induction records with
  | nil => rfl
  | cons record rest ih =>
    rw [members_cons, map_append, sum_append, extent, map_cons, sum_cons]
    exact congrArg (record.size + ·) ih

theorem entries_getElem? (pos : Nat) (front : List Record) (record : Record) (back : List Record) :
    (entries before pos (front ++ record :: back))[front.length]? =
      some (record.entry (before ++ entries before pos front) (pos + extent front)) := by
  rw [entries_append, getElem?_append_right (by rw [length_entries]), length_entries, Nat.sub_self]
  rfl

section

variable {device other : Nat -> UInt8} {pos mid last : Nat} {front back : List Bytes}

theorem Chain.append (first : Chain device pos front mid) (second : Chain device mid back last) :
    Chain device pos (front ++ back) last := by
  induction front generalizing pos with
  | nil =>
    obtain rfl : pos = mid := first
    exact second
  | cons hdr rest ih =>
    obtain ⟨read, named, valid, later⟩ := first
    exact ⟨read, named, valid, ih later⟩

theorem Chain.split (chain : Chain device pos (front ++ back) last) :
    ∃ mid, Chain device pos front mid ∧ Chain device mid back last := by
  induction front generalizing pos with
  | nil => exact ⟨pos, rfl, chain⟩
  | cons hdr rest ih =>
    obtain ⟨read, named, valid, later⟩ := chain
    obtain ⟨mid, first, second⟩ := ih later
    exact ⟨mid, ⟨read, named, valid, first⟩, second⟩

theorem Chain.last_eq {members : List Bytes} (chain : Chain device pos members last) :
    last = pos + (members.map span).sum := by
  induction members generalizing pos with
  | nil => exact (show pos = last from chain).symm
  | cons hdr rest ih =>
    rw [ih chain.2.2.2, map_cons, sum_cons, span]
    omega

theorem headerAt_congr (same : ∀ k < headerSize, other (pos + k) = device (pos + k)) :
    headerAt other pos = headerAt device pos :=
  map_congr_left fun k among => same k (mem_range.1 among)

theorem Chain.congr {members : List Bytes} (chain : Chain device pos members last)
    (same : ∀ at', pos ≤ at' -> at' < last -> other at' = device at') : Chain other pos members last := by
  induction members generalizing pos with
  | nil => exact chain
  | cons hdr rest ih =>
    obtain ⟨read, named, valid, later⟩ := chain
    have fits := later.fits
    refine ⟨(headerAt_congr fun k within => same _ (by omega) ?_).trans read, named, valid,
      ih later fun at' low high => same at' (by omega) high⟩
    simp only [headerSize, blkSize] at *
    omega

end

-- The name ends inside its array; only the first header may have that of a dummy file, and a link has none.
structure Record.Sound (fs : TarFs) (first : Prop) (record : Record) : Prop where
  name : (cstr record.hdr).length < namsiz
  kept : isDummy fs record.hdr = true -> first
  dummies : ∀ dummy ∈ record.dummies, isDummy fs dummy = true
  bare : record.hdr.getD 156 0 = lfLink -> record.dummies = []

def Sound (fs : TarFs) (first : Prop) : List Record -> Prop
  | [] => True
  | record :: rest => record.Sound fs first ∧ ∀ other ∈ rest, other.Sound fs False

def Record.mark (last : Nat) (file : TarFile) : Nat :=
  if record.dummies = [] then last else wrap (file.deviceOffset + (file.length + file.dummyfileLen + blkSize))

section

variable {fs : TarFs} {root file : TarFile} {front before : List TarFile} {pos last : Nat} {scan : Scan}

theorem scan_dummies {dummies : List Bytes} (marked : ∀ dummy ∈ dummies, isDummy fs dummy = true)
    (chain : Chain fs.device pos dummies last) (small : last < 2 ^ 31) (files : scan.files = root :: (front ++ [file]))
    (offset : scan.offset = pos) :
    ∃ final, dummies.foldlM (scanHeader fs) scan = some final ∧
      final.files = root :: (front ++ [dummies.foldl addDummy file]) ∧ final.offset = last ∧
      final.filesystemSize = if dummies = [] then scan.filesystemSize else
        wrap ((dummies.foldl addDummy file).deviceOffset +
          ((dummies.foldl addDummy file).length + (dummies.foldl addDummy file).dummyfileLen + blkSize)) := by
  induction dummies generalizing pos scan file with
  | nil =>
    obtain rfl : pos = last := chain
    exact ⟨scan, rfl, files, offset, rfl⟩
  | cons dummy rest ih =>
    obtain ⟨-, -, valid, later⟩ := chain
    have fits := later.fits
    obtain ⟨next, moved, nextFiles, nextOffset, nextSize⟩ : ∃ next, scanHeader fs scan dummy = some next ∧
        next.files = root :: (front ++ [addDummy file dummy]) ∧
        next.offset = (pos + blkSize + roundUp (fileSize dummy).toNat : Nat) ∧ next.filesystemSize =
          wrap (file.deviceOffset + (file.length + (addDummy file dummy).dummyfileLen + blkSize)) :=
      ⟨_, scanHeader_dummy files offset valid (by omega) (marked dummy (by simp)), rfl, rfl, rfl⟩
    obtain ⟨final, ran, files', offset', size⟩ :=
      ih (fun other among => marked other (by simp [among])) later nextFiles nextOffset
    refine ⟨final, ?_, files', offset', ?_⟩
    · rw [foldlM_cons, moved]
      exact ran
    rw [if_neg (by simp), size]
    split_ifs with none
    · subst none
      exact nextSize
    · rfl

theorem scan_record {record : Record} (sound : record.Sound fs (before = []))
    (chain : Chain fs.device pos record.members last) (small : last < 2 ^ 31) (files : scan.files = root :: before)
    (room : before.length + 1 < maxTarFiles) (offset : scan.offset = pos) :
    ∃ final, record.members.foldlM (scanHeader fs) scan = some final ∧
      final.files = root :: (before ++ [record.entry (root :: before) pos]) ∧ final.offset = last ∧
      final.filesystemSize = record.mark last (record.entry (root :: before) pos) := by
  obtain ⟨-, -, valid, later⟩ := chain
  have fits := later.fits
  have kept : ¬ (isDummy fs record.hdr = true ∧ 1 < scan.files.length) := by
    rintro ⟨dummy, more⟩
    rw [files, sound.kept dummy] at more
    exact absurd more (by simp)
  have free : scan.files.length < maxTarFiles := by
    rw [files, length_cons]
    exact room
  obtain ⟨next, moved, nextFiles, nextOffset, nextSize⟩ : ∃ next, scanHeader fs scan record.hdr = some next ∧
      next.files = root :: (before ++ [resolveLink (root :: before) record.hdr (trimSlash (newEntry pos record.hdr))]) ∧
      next.offset = (pos + blkSize + roundUp (fileSize record.hdr).toNat : Nat) ∧
      next.filesystemSize = pos + blkSize + roundUp (fileSize record.hdr).toNat := by
    refine ⟨_, scanHeader_entry offset valid (by omega) kept free, ?_, rfl, rfl⟩
    rw [files]
    rfl
  obtain ⟨final, ran, files', offset', size⟩ := scan_dummies sound.dummies later small nextFiles nextOffset
  refine ⟨final, ?_, files', offset', ?_⟩
  · rw [Record.members, foldlM_cons, moved]
    exact ran
  rw [size, Record.mark]
  split_ifs with none
  · rw [none] at later
    exact nextSize.trans later
  · rfl

theorem scan_records {records : List Record} (sound : Sound fs (before = []) records)
    (chain : Chain fs.device pos (members records) last) (small : last < 2 ^ 31) (files : scan.files = root :: before)
    (room : before.length + records.length < maxTarFiles) (offset : scan.offset = pos) :
    ∃ final, (members records).foldlM (scanHeader fs) scan = some final ∧
      final.files = root :: (before ++ entries (root :: before) pos records) ∧
      (records = [] -> final.filesystemSize = scan.filesystemSize) ∧
      ∀ front record, records = front ++ [record] -> final.filesystemSize =
        record.mark last (record.entry (root :: (before ++ entries (root :: before) pos front))
          (pos + extent front)) := by
  induction records generalizing pos scan before with
  | nil =>
    obtain rfl : pos = last := chain
    exact ⟨scan, rfl, by simpa [entries] using files, fun _ => rfl, fun front record root => by simp at root⟩
  | cons record rest ih =>
    obtain ⟨mid, first, later⟩ := chain.split
    have fits := later.fits
    have size : mid = pos + record.size := by
      rw [first.last_eq]
      rfl
    rw [length_cons] at room
    obtain ⟨next, moved, nextFiles, nextOffset, nextSize⟩ := scan_record sound.1 first (by omega) files (by omega) offset
    have others : Sound fs (before ++ [record.entry (root :: before) pos] = []) rest := by
      cases rest with
      | nil => trivial
      | cons other rest =>
        have plain := sound.2 other (by simp)
        exact ⟨{ plain with kept := fun dummy => (plain.kept dummy).elim },
          fun more among => sound.2 more (by simp [among])⟩
    obtain ⟨final, ran, files', root, each⟩ :=
      ih others later nextFiles (by rw [length_append, length_singleton]; omega) nextOffset
    subst size
    refine ⟨final, ?_, ?_, fun no => by simp at no, fun front ends split => ?_⟩
    · rw [members_cons, foldlM_append, moved]
      exact ran
    · simp [files', entries]
    cases front with
    | nil =>
      obtain ⟨rfl, rfl⟩ := cons.inj split
      obtain rfl : pos + record.size = last := later
      rw [root rfl, nextSize]
      simp [entries, extent]
    | cons other front =>
      obtain ⟨rfl, rfl⟩ := cons.inj split
      rw [each front ends rfl]
      simp only [entries, extent, map_cons, sum_cons, append_assoc, cons_append,
        nil_append, Nat.add_assoc]

end

section

variable {device : Nat -> UInt8} {file : TarFile} {before : List TarFile} {pos last : Nat} {record : Record}

theorem foldl_addDummy {dummies : List Bytes} (chain : Chain device pos dummies last)
    (bound : file.dummyfileLen + (dummies.map span).sum < 2 ^ 31) :
    dummies.foldl addDummy file = { file with
      dummyFile := file.dummyFile || !dummies.isEmpty
      dummyfileLen := file.dummyfileLen + (dummies.map span).sum } := by
  induction dummies generalizing pos file with
  | nil => simp
  | cons dummy rest ih =>
    obtain ⟨-, -, valid, later⟩ := chain
    rw [map_cons, sum_cons] at bound ⊢
    have grown := addDummy_room file valid (by rw [span] at bound; omega)
    have spanned : (addDummy file dummy).dummyfileLen = file.dummyfileLen + span dummy := by
      rw [grown, span]
      omega
    rw [foldl_cons, ih later (by omega), spanned]
    simp [addDummy, Nat.add_assoc]

structure Record.Entry (record : Record) (pos : Nat) (file : TarFile) : Prop where
  type : file.type = record.hdr.getD 156 0
  regular : file.regularFile = true
  room : file.dummyfileLen = record.room
  flagged : 0 < file.dummyfileLen -> file.dummyFile = true
  place : file.type ≠ lfLink -> file.deviceOffset = pos + blkSize ∧ file.length = (fileSize record.hdr).toNat

theorem resolveLink_plain {files : List TarFile} {hdr : Bytes} (plain : file.type ≠ lfLink) :
    resolveLink files hdr file = file := by rw [resolveLink, if_neg plain]

theorem Record.entry_fields (chain : Chain device pos record.members last) (small : last < 2 ^ 31)
    (before : List TarFile) :
    record.Entry pos (record.entry before pos) := by
  obtain ⟨-, -, valid, later⟩ := chain
  have total := later.last_eq
  have size := le_roundUp ((fileSize record.hdr).toNat)
  have own : (newEntry pos record.hdr).deviceOffset = pos + blkSize ∧
      (newEntry pos record.hdr).length = (fileSize record.hdr).toNat :=
    ⟨newEntry_offset (by omega), toUlong_eq valid (by omega)⟩
  obtain ⟨name, archLinkname, trimmed⟩ := trimSlash_fields (newEntry pos record.hdr)
  rw [Record.entry, trimmed]
  -- Only a link is resolved, which changes its place.
  obtain ⟨place, length, resolved, plain⟩ : ∃ place length, resolveLink before record.hdr
        { newEntry pos record.hdr with name := name, archLinkname := archLinkname } =
      { newEntry pos record.hdr with
        name := name, archLinkname := archLinkname, deviceOffset := place, length := length } ∧
      ((newEntry pos record.hdr).type ≠ lfLink -> place = pos + blkSize ∧ length = (fileSize record.hdr).toNat) := by
    rcases resolveLink_fields before record.hdr
        { newEntry pos record.hdr with name := name, archLinkname := archLinkname } with same | ⟨link, target, -, same⟩
    · exact ⟨_, _, same, fun _ => own⟩
    · exact ⟨_, _, same, fun plain => absurd link plain⟩
  rw [resolved, foldl_addDummy later (by simp only [newEntry]; omega)]
  refine ⟨rfl, rfl, ?_, ?_, plain⟩
  · simp [newEntry, Record.room]
  intro left
  cases list : record.dummies with
  | nil => simp [newEntry, list] at left
  | cons dummy rest => simp

theorem Record.entry_keeps (record : Record) (before : List TarFile) (pos : Nat) :
    (record.entry before pos).type = record.hdr.getD 156 0 ∧ (record.entry before pos).regularFile = true ∧
      (record.entry before pos).deviceOffset =
        (resolveLink before record.hdr (trimSlash (newEntry pos record.hdr))).deviceOffset ∧
      (record.entry before pos).length =
        (resolveLink before record.hdr (trimSlash (newEntry pos record.hdr))).length := by
  have dummies (dummies : List Bytes) (file : TarFile) : (dummies.foldl addDummy file).type = file.type ∧
      (dummies.foldl addDummy file).regularFile = file.regularFile ∧
      (dummies.foldl addDummy file).deviceOffset = file.deviceOffset ∧
      (dummies.foldl addDummy file).length = file.length := by
    induction dummies generalizing file with
    | nil => exact ⟨rfl, rfl, rfl, rfl⟩
    | cons dummy rest ih => exact ih (addDummy file dummy)
  obtain ⟨type, regular, place⟩ := dummies record.dummies
    (resolveLink before record.hdr (trimSlash (newEntry pos record.hdr)))
  rw [Record.entry, type, regular]
  refine ⟨?_, ?_, place⟩
  all_goals
    obtain ⟨name, archLinkname, trimmed⟩ := trimSlash_fields (newEntry pos record.hdr)
    rw [trimmed]
    rcases resolveLink_fields before record.hdr
      { newEntry pos record.hdr with name := name, archLinkname := archLinkname } with same | ⟨-, target, -, same⟩
    all_goals rw [same, newEntry]

theorem length_headerAt (device : Nat -> UInt8) (pos : Nat) : (headerAt device pos).length = headerSize := by
  rw [headerAt, length_map, length_range]

theorem newEntry_str {hdr : Bytes} (length : hdr.length = headerSize) (short : (cstr hdr).length < namsiz)
    (offset : Int) :
    (newEntry offset hdr).str = cstr hdr := by
  obtain ⟨rest, split⟩ := cstr_split (lt_trans short (by rw [length]; decide))
  have name : field hdr 0 namsiz = cstr hdr ++ 0 :: rest.take (namsiz - (cstr hdr).length - 1) := by
    obtain ⟨left, enough⟩ := Nat.exists_eq_add_of_lt short
    have first : namsiz - (cstr hdr).length = left + 1 := by omega
    rw [field, drop_zero, first, Nat.add_sub_cancel]
    conv_lhs => rw [split, take_append, first]
    rw [take_of_length_le (Nat.le_of_lt short), take_succ_cons]
  simp only [TarFile.str, newEntry]
  rw [name, append_assoc, cons_append]
  exact cstr_terminated (cstr_solid hdr) _

theorem trimSlash_plain (plain : file.type ≠ lfDir) : trimSlash file = file :=
  if_neg fun trims => plain trims.1

theorem Record.entry_str (chain : Chain device pos record.members last) (small : last < 2 ^ 31)
    (short : (cstr record.hdr).length < namsiz) (before : List TarFile) (plain : record.hdr.getD 156 0 ≠ lfDir) :
    (record.entry before pos).str = cstr record.hdr := by
  obtain ⟨read, -, valid, later⟩ := chain
  have total := later.last_eq
  have own := newEntry_str (by rw [← read, length_headerAt]) short pos
  rw [Record.entry, trimSlash_plain (show (newEntry pos record.hdr).type ≠ lfDir from plain)]
  rcases resolveLink_fields before record.hdr (newEntry pos record.hdr) with same | ⟨-, target, -, same⟩
  all_goals
    rw [same, foldl_addDummy later (by simp only [newEntry]; omega)]
    simpa only [TarFile.str] using own

end

def Replaces (place : Nat) (new old : TarFile) : Prop := new = old ∨ new.str = old.str ∧ old.deviceOffset = place

variable {place : Nat} {news olds : List TarFile}

theorem find_replaced (replaced : List.Forall₂ (Replaces place) news olds) (name : Bytes) :
    news.find? (fun target => target.str == name) = none ∧ olds.find? (fun target => target.str == name) = none ∨
      ∃ new old, news.find? (fun target => target.str == name) = some new ∧
        olds.find? (fun target => target.str == name) = some old ∧ Replaces place new old := by
  induction replaced with
  | nil => exact .inl ⟨rfl, rfl⟩
  | @cons new old _ _ head _ ih =>
    have str : new.str = old.str := by
      rcases head with rfl | ⟨same, -⟩
      · rfl
      · exact same
    rw [find?_cons, find?_cons, str]
    cases old.str == name with
    | true => exact .inr ⟨new, old, rfl, rfl, head⟩
    | false => exact ih

theorem entries_replaced (replaced : List.Forall₂ (Replaces place) news olds) {pos : Nat} {records : List Record}
    (unshared : ∀ raw ∈ entries olds pos records, raw.type = lfLink -> raw.deviceOffset ≠ place) :
    entries news pos records = entries olds pos records := by
  induction records generalizing news olds pos with
  | nil => rfl
  | cons record rest ih =>
    rw [entries] at unshared
    obtain ⟨type, -, offset, -⟩ := record.entry_keeps olds pos
    have own : record.entry news pos = record.entry olds pos := by
      rw [Record.entry, Record.entry]
      by_cases link : (trimSlash (newEntry pos record.hdr)).type = lfLink
      · have apart := unshared _ (by simp) (type.trans (by
          obtain ⟨name, archLinkname, trimmed⟩ := trimSlash_fields (newEntry pos record.hdr)
          rw [trimmed] at link
          exact link))
        rw [offset, resolveLink, if_pos link] at apart
        rw [resolveLink, resolveLink, if_pos link, if_pos link]
        rcases find_replaced replaced (cstr (record.hdr.drop 157)) with ⟨miss, miss'⟩ | ⟨new, old, found, found', same⟩
        · rw [miss, miss']
        rw [found'] at apart
        rcases same with rfl | ⟨-, there⟩
        · rw [found, found']
        · exact absurd there apart
      · rw [resolveLink_plain link, resolveLink_plain link]
    rw [entries, entries, own]
    refine congrArg (record.entry olds pos :: ·) (ih ?_ fun raw among => unshared raw (by simp [among]))
    exact rel_append replaced (.cons (.inl rfl) .nil)

end JinyKernel.Tarfs
