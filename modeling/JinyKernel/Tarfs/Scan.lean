import JinyKernel.Tarfs.Calls

namespace JinyKernel.Tarfs

open Function List Option Run

def headerAt (device : Nat -> UInt8) (pos : Nat) : Bytes := (List.range headerSize).map fun i => device (pos + i)

def Archive (fs : TarFs) : Nat -> List Bytes -> Prop
  | pos, [] => pos + 2 * blkSize ≤ fs.deviceSize ∧ ∀ i < 2 * blkSize, fs.device (pos + i) = 0
  | pos, hdr :: rest => headerAt fs.device pos = hdr ∧ hdr.getD 0 0 ≠ 0 ∧ 0 ≤ fileSize hdr ∧
      Archive fs (pos + blkSize + roundUp (fileSize hdr).toNat) rest

def entryHeaders (fs : TarFs) : List Bytes -> List Bytes
  | [] => []
  | first :: rest => first :: rest.filter fun hdr => !isDummy fs hdr

theorem entryHeaders_snoc (fs : TarFs) (done : List Bytes) (hdr : Bytes) :
    entryHeaders fs (done ++ [hdr]) =
      entryHeaders fs done ++ if isDummy fs hdr = true ∧ done ≠ [] then [] else [hdr] := by
  cases done with
  | nil => simp [entryHeaders]
  | cons first rest => cases dummy : isDummy fs hdr <;> simp [entryHeaders, dummy]

theorem entryHeaders_length_le (fs : TarFs) (done rest : List Bytes) :
    (entryHeaders fs done).length ≤ (entryHeaders fs (done ++ rest)).length := by
  cases done with
  | nil => exact Nat.zero_le _
  | cons first later => simp [entryHeaders]

section

variable {hdr : Bytes} {pos : Nat}

theorem blks_eq (valid : 0 ≤ fileSize hdr) (bound : roundUp (fileSize hdr).toNat < 2 ^ 31) :
    blks hdr = (roundUp (fileSize hdr).toNat / blkSize : Nat) := by
  have size := le_roundUp ((fileSize hdr).toNat)
  rw [blks, toUlong_eq valid (by omega), cielLength_eq (by omega)]
  exact toInt_nat (lt_of_le_of_lt (Nat.div_le_self _ _) bound)

theorem blks_bytes (valid : 0 ≤ fileSize hdr) (bound : roundUp (fileSize hdr).toNat < 2 ^ 31) :
    blks hdr * blkSize = (roundUp (fileSize hdr).toNat : Nat) := by
  rw [blks_eq valid bound, ← Nat.cast_mul, Nat.div_mul_cancel]
  exact Nat.dvd_mul_left _ _

theorem nextOffset_eq (valid : 0 ≤ fileSize hdr) (bound : pos + blkSize + roundUp (fileSize hdr).toNat < 2 ^ 31) :
    nextOffset pos hdr = (pos + blkSize + roundUp (fileSize hdr).toNat : Nat) := by
  rw [nextOffset, blks_bytes valid (by omega), toInt_nat (by omega), ← Nat.cast_add, ← Nat.cast_add, toInt_nat bound]

theorem addDummy_room (file : TarFile) (valid : 0 ≤ fileSize hdr)
    (bound : file.dummyfileLen + blkSize + roundUp (fileSize hdr).toNat < 2 ^ 31) :
    (addDummy file hdr).dummyfileLen = file.dummyfileLen + blkSize + roundUp (fileSize hdr).toNat := by
  have bytes : (blks hdr + 1) * blkSize = (roundUp (fileSize hdr).toNat + blkSize : Nat) := by
    rw [Int.add_mul, blks_bytes valid (by omega), Int.one_mul, ← Nat.cast_add]
  simp only [addDummy]
  rw [bytes, toInt_nat (by omega), toUlong_nat (by omega), wrap, Nat.mod_eq_of_lt (by omega)]
  omega

theorem newEntry_offset (bound : pos + blkSize < 2 ^ 31) : (newEntry pos hdr).deviceOffset = pos + blkSize := by
  simp only [newEntry]
  rw [← Nat.cast_add, toInt_nat bound, toUlong_nat (by omega)]

end

section

variable {fs : TarFs} {scan : Scan} {hdr : Bytes} {pos : Nat}

theorem scanHeader_entry (offset : scan.offset = pos) (valid : 0 ≤ fileSize hdr)
    (bound : pos + blkSize + roundUp (fileSize hdr).toNat < 2 ^ 31)
    (kept : ¬ (isDummy fs hdr = true ∧ 1 < scan.files.length)) (free : scan.files.length < maxTarFiles) :
    scanHeader fs scan hdr = some
      { files := scan.files ++ [resolveLink scan.files hdr (trimSlash (newEntry pos hdr))]
        filesystemSize := pos + blkSize + roundUp (fileSize hdr).toNat
        offset := (pos + blkSize + roundUp (fileSize hdr).toNat : Nat)
        header := hdr.set 0 0 } := by
  have mark : wrap ((newEntry pos hdr).deviceOffset + toUlong (toInt (blks hdr * blkSize))) =
      pos + blkSize + roundUp (fileSize hdr).toNat := by
    rw [newEntry_offset (by omega), blks_bytes valid (by omega), toInt_nat (by omega), toUlong_nat (by omega), wrap,
      Nat.mod_eq_of_lt (by omega)]
  rw [scanHeader, if_neg kept]
  simp [guard_bind free, offset, mark, nextOffset_eq valid bound]

theorem scanHeader_dummy {root file : TarFile} {front : List TarFile} (files : scan.files = root :: (front ++ [file]))
    (offset : scan.offset = pos) (valid : 0 ≤ fileSize hdr)
    (bound : pos + blkSize + roundUp (fileSize hdr).toNat < 2 ^ 31) (dummy : isDummy fs hdr = true) :
    scanHeader fs scan hdr = some
      { files := root :: (front ++ [addDummy file hdr])
        filesystemSize := wrap (file.deviceOffset + (file.length + (addDummy file hdr).dummyfileLen + blkSize))
        offset := (pos + blkSize + roundUp (fileSize hdr).toNat : Nat)
        header := hdr } := by
  have more : 1 < scan.files.length := by
    rw [files, length_cons, length_append, length_singleton]
    omega
  have lastFile : scan.files.getLast? = some file := by rw [files, ← cons_append, getLast?_concat]
  have earlier : scan.files.dropLast = root :: front := by rw [files, ← cons_append, dropLast_concat]
  rw [scanHeader, if_pos ⟨dummy, more⟩, lastFile, earlier, offset, nextOffset_eq valid bound]
  rfl

end

theorem trimSlash_fields (file : TarFile) :
    ∃ name archLinkname, trimSlash file = { file with name := name, archLinkname := archLinkname } := by
  simp only [trimSlash, TarFile.setByte]
  split_ifs
  · exact ⟨_, file.archLinkname, rfl⟩
  · exact ⟨file.name, _, rfl⟩
  · exact ⟨file.name, file.archLinkname, rfl⟩

theorem resolveLink_fields (files : List TarFile) (hdr : Bytes) (file : TarFile) :
    resolveLink files hdr file = file ∨ file.type = lfLink ∧ ∃ target ∈ files,
      resolveLink files hdr file = { file with deviceOffset := target.deviceOffset, length := target.length } := by
  rw [resolveLink]
  split_ifs with link
  · cases found : files.find? fun target => target.str == cstr (hdr.drop 157) with
    | none => exact .inl rfl
    | some target => exact .inr ⟨link, target, mem_of_find?_eq_some found, rfl⟩
  · exact .inl rfl

structure ScanInv (fs : TarFs) (done : List Bytes) (pos : Nat) (scan : Scan) (entries : List TarFile) : Prop where
  offset : scan.offset = pos
  files : scan.files = rootFile :: entries
  count : entries.length = (entryHeaders fs done).length
  table : Table pos (entries.map TarFile.place)
  regular : ∀ file ∈ entries, file.regularFile = true
  last : ∀ file ∈ entries.getLast?, file.type ≠ lfLink ->
    file.deviceOffset + roundUp file.length + file.dummyfileLen = pos
  link : ∀ file ∈ entries.getLast?, file.type = lfLink -> ∃ front hdr dummies, done = front ++ hdr :: dummies ∧
    hdr.getD 156 0 = lfLink ∧ (∀ dummy ∈ dummies, isDummy fs dummy = true) ∧ (file.dummyFile = true -> dummies ≠ [])
  size : (∃ file ∈ entries.getLast?, file.type = lfLink ∧ file.dummyFile = true) ∨
    pos ≤ scan.filesystemSize ∧ scan.filesystemSize ≤ pos + blkSize

section

variable {fs : TarFs} {done : List Bytes} {pos : Nat} {scan : Scan} {entries : List TarFile} {hdr : Bytes}

variable (inv : ScanInv fs done pos scan entries)

include inv

theorem ScanInv.target_below {target : TarFile}
    (member : target ∈ scan.files) : target.deviceOffset + roundUp target.length ≤ pos := by
  rw [inv.files] at member
  cases member with
  | head => exact Nat.zero_le pos
  | tail _ later =>
    have below := (inv.table.sound _ (mem_map_of_mem later)).below (inv.regular _ later)
    simp only [TarFile.place] at below
    omega

variable (valid : 0 ≤ fileSize hdr) (bound : pos + blkSize + roundUp (fileSize hdr).toNat < 2 ^ 31)

include valid bound

theorem ScanInv.newEntry_spec {file : TarFile}
    (read : resolveLink scan.files hdr (trimSlash (newEntry scan.offset hdr)) = file) :
    file.type = hdr.getD 156 0 ∧ file.regularFile = true ∧ file.dummyFile = false ∧ file.dummyfileLen = 0 ∧
      (file.type ≠ lfLink -> file.deviceOffset = pos + blkSize ∧ file.length = (fileSize hdr).toNat) ∧
      file.deviceOffset + roundUp file.length ≤ pos + blkSize + roundUp (fileSize hdr).toNat := by
  have size := le_roundUp ((fileSize hdr).toNat)
  have own : (newEntry scan.offset hdr).deviceOffset = pos + blkSize ∧
      (newEntry scan.offset hdr).length = (fileSize hdr).toNat := by
    rw [inv.offset]
    exact ⟨newEntry_offset (by omega), toUlong_eq valid (by omega)⟩
  obtain ⟨name, archLinkname, trimmed⟩ := trimSlash_fields (newEntry scan.offset hdr)
  rw [trimmed] at read
  rcases resolveLink_fields scan.files hdr { newEntry scan.offset hdr with name := name, archLinkname := archLinkname }
    with same | ⟨link, target, member, same⟩
  · rw [same] at read
    subst read
    refine ⟨rfl, rfl, rfl, rfl, fun _ => own, ?_⟩
    simp only [own]
    exact Nat.le_refl _
  rw [same] at read
  subst read
  have below := inv.target_below member
  refine ⟨rfl, rfl, rfl, rfl, fun plain => absurd link plain, ?_⟩
  simp only
  omega

theorem ScanInv.entry (kept : ¬ (isDummy fs hdr = true ∧ done ≠ []))
    (room : (entryHeaders fs (done ++ [hdr])).length < maxTarFiles) :
    ∃ next entries', scanHeader fs scan hdr = some next ∧
      ScanInv fs (done ++ [hdr]) (pos + blkSize + roundUp (fileSize hdr).toNat) next entries' := by
  have length : (entryHeaders fs (done ++ [hdr])).length = entries.length + 1 := by
    rw [entryHeaders_snoc, if_neg kept, length_append, inv.count, length_singleton]
  have notDummy : ¬ (isDummy fs hdr = true ∧ 1 < scan.files.length) := by
    rintro ⟨dummy, more⟩
    refine kept ⟨dummy, ?_⟩
    rintro rfl
    have fresh := inv.count
    rw [inv.files, length_cons] at more
    simp [entryHeaders] at fresh
    simp [fresh] at more
  have free : scan.files.length < maxTarFiles := by
    rw [inv.files, length_cons]
    omega
  have step := scanHeader_entry inv.offset valid bound notDummy free
  rw [← inv.offset] at step
  generalize read : resolveLink scan.files hdr (trimSlash (newEntry scan.offset hdr)) = file at step
  obtain ⟨type, regular, noDummy, noRoom, plain, below⟩ := inv.newEntry_spec valid bound read
  refine ⟨_, entries ++ [file], step, rfl, ?_, ?_, ?_, ?_, ?_, ?_, ?_⟩
  · simp [inv.files]
  · rw [length, length_append, length_singleton]
  · rw [map_append]
    refine inv.table.append (by omega) ⟨fun _ => ?_, fun _ => ?_, fun notLink => ?_⟩ ?_
    · simp only [TarFile.place, noRoom]
      exact Nat.dvd_zero _
    · simpa only [TarFile.place, noRoom, Nat.add_zero] using below
    · have isPlain : file.type ≠ lfLink := by simpa [TarFile.place] using notLink
      simp only [TarFile.place, (plain isPlain).1]
      omega
    intro r owned
    cases isLink : file.type == lfLink with
    | true => simp [Place.extent, TarFile.place, isLink] at owned
    | false =>
      obtain ⟨offset, size⟩ := plain (by simpa using isLink)
      simp only [Place.extent, TarFile.place, isLink, Place.start, Place.finish, regular, noRoom, offset, size,
        Bool.false_eq_true, if_false, if_true, mem_def, some.injEq] at owned
      subst owned
      simp only [blkSize] at *
      omega
  · simpa [or_imp, forall_and, regular] using inv.regular
  · intro last only isPlain
    obtain rfl : file = last := by simpa using only
    obtain ⟨offset, size⟩ := plain isPlain
    rw [offset, size, noRoom]
    rfl
  · intro last only isLink
    obtain rfl : file = last := by simpa using only
    refine ⟨done, hdr, [], rfl, type ▸ isLink, by simp, ?_⟩
    rw [noDummy]
    exact Bool.noConfusion
  · exact .inr ⟨Nat.le_refl _, Nat.le_add_right _ _⟩

theorem ScanInv.dummy (dummy : isDummy fs hdr = true) (behind : done ≠ []) :
    ∃ next entries', scanHeader fs scan hdr = some next ∧
      ScanInv fs (done ++ [hdr]) (pos + blkSize + roundUp (fileSize hdr).toNat) next entries' := by
  have more : 1 < scan.files.length := by
    have present : entryHeaders fs done ≠ [] := by
      cases done with
      | nil => exact absurd rfl behind
      | cons first rest => simp [entryHeaders]
    rw [inv.files, length_cons, inv.count]
    exact Nat.succ_lt_succ (length_pos_iff.2 present)
  obtain ⟨front, file, rfl⟩ : ∃ front file, entries = front ++ [file] := by
    rcases eq_nil_or_concat entries with fresh | split
    · rw [inv.files, fresh] at more
      exact absurd more (by simp)
    · simpa using split
  have regular := inv.regular file (by simp)
  have below := (inv.table.sound file.place (by simp)).below regular
  have blocks := (inv.table.sound file.place (by simp)).blocks regular
  simp only [TarFile.place] at below blocks
  have grown := addDummy_room file valid (by omega)
  have step := scanHeader_dummy inv.files inv.offset valid bound dummy
  refine ⟨_, front ++ [addDummy file hdr], step, rfl, rfl, ?_, ?_, ?_, ?_, ?_, ?_⟩
  · rw [entryHeaders_snoc, if_pos ⟨dummy, behind⟩, append_nil, ← inv.count]
    simp
  · have here : ((front ++ [file]).map TarFile.place)[front.length]? = some file.place := by simp
    have replaced : (front ++ [addDummy file hdr]).map TarFile.place = ((front ++ [file]).map TarFile.place).set
        front.length { file.place with room := (addDummy file hdr).dummyfileLen } := by simp [addDummy, TarFile.place]
    rw [replaced, grown]
    refine inv.table.grow (by omega) here regular ?_ ?_ ?_ fun plain => inv.last file (by simp) ?_
    · exact Nat.dvd_add (Nat.dvd_add blocks (Nat.dvd_refl _)) (Nat.dvd_mul_left _ _)
    · simp only [TarFile.place]
      omega
    · simp only [TarFile.place]
      omega
    · simpa [TarFile.place] using plain
  · intro other member
    rcases mem_append.1 member with old | only
    · exact inv.regular other (mem_append_left _ old)
    · exact mem_singleton.1 only ▸ regular
  · intro last only isPlain
    obtain rfl : addDummy file hdr = last := by simpa using only
    have ends := inv.last file (by simp) isPlain
    rw [grown]
    simp only [addDummy]
    omega
  · intro last only isLink
    obtain rfl : addDummy file hdr = last := by simpa using only
    obtain ⟨before, link, dummies, same, type, all, -⟩ := inv.link file (by simp) isLink
    refine ⟨before, link, dummies ++ [hdr], by simp [same], type, ?_, by simp⟩
    simpa [or_imp, forall_and, dummy] using all
  by_cases isLink : file.type = lfLink
  · exact .inl ⟨addDummy file hdr, by simp, by simpa only [addDummy] using isLink, by simp [addDummy]⟩
  have ends := inv.last file (by simp) isLink
  have round : roundUp file.length ≤ file.length + blkSize ∧ file.length ≤ roundUp file.length := by
    simp only [roundUp, blkSize]
    omega
  have mark : wrap (file.deviceOffset + (file.length + (addDummy file hdr).dummyfileLen + blkSize)) =
      file.deviceOffset + (file.length + (addDummy file hdr).dummyfileLen + blkSize) := by
    rw [grown, wrap, Nat.mod_eq_of_lt]
    omega
  simp only [mark]
  omega

theorem scanHeader_spec (room : (entryHeaders fs (done ++ [hdr])).length < maxTarFiles) :
    ∃ next entries', scanHeader fs scan hdr = some next ∧
      ScanInv fs (done ++ [hdr]) (pos + blkSize + roundUp (fileSize hdr).toNat) next entries' := by
  by_cases kept : isDummy fs hdr = true ∧ done ≠ []
  · exact inv.dummy valid bound kept.1 kept.2
  · exact inv.entry valid bound kept room

end

def NoLinkedDummy (fs : TarFs) (members : List Bytes) : Prop :=
  ∀ front link dummies, members = front ++ link :: dummies -> link.getD 156 0 = lfLink ->
    (∀ dummy ∈ dummies, isDummy fs dummy = true) -> dummies = []

theorem readFromDevice_eq {fs : TarFs} {pos : Nat} (fits : pos + headerSize ≤ fs.deviceSize) :
    readFromDevice fs pos headerSize = some (headerAt fs.device pos) := by
  have inside : 0 ≤ (pos : Int) ∧ (pos : Int) + headerSize ≤ fs.deviceSize := by omega
  rw [readFromDevice, if_pos inside, Int.toNat_natCast]
  rfl

def Chain (device : Nat -> UInt8) : Nat -> List Bytes -> Nat -> Prop
  | pos, [], last => pos = last
  | pos, hdr :: rest, last => headerAt device pos = hdr ∧ hdr.getD 0 0 ≠ 0 ∧ 0 ≤ fileSize hdr ∧
      Chain device (pos + blkSize + roundUp (fileSize hdr).toNat) rest last

def Ends (fs : TarFs) (last : Nat) : Prop := fs.deviceSize < last + headerSize ∨ fs.device last = 0

section

variable {fs : TarFs} {pos last : Nat} {members : List Bytes}

theorem Archive.chain (archive : Archive fs pos members) :
    ∃ last, Chain fs.device pos members last ∧ Ends fs last ∧ last + 2 * blkSize ≤ fs.deviceSize := by
  induction members generalizing pos with
  | nil => exact ⟨pos, rfl, .inr (archive.2 0 (by decide)), archive.1⟩
  | cons hdr rest ih =>
    obtain ⟨read, named, valid, later⟩ := archive
    obtain ⟨last, chain, ends, below⟩ := ih later
    exact ⟨last, ⟨read, named, valid, chain⟩, ends, below⟩

theorem Chain.fits {device : Nat -> UInt8} (chain : Chain device pos members last) :
    pos + members.length * blkSize ≤ last := by
  induction members generalizing pos with
  | nil => simpa using Nat.le_of_eq chain
  | cons hdr rest ih =>
    have later := ih chain.2.2.2
    rw [length_cons, Nat.succ_mul]
    omega

theorem headerAt_first (device : Nat -> UInt8) (pos : Nat) : (headerAt device pos).getD 0 0 = device pos := by
  simp [headerAt, headerSize]

theorem scanHeader_offset {scan next : Scan} {hdr : Bytes} (moved : scanHeader fs scan hdr = some next) :
    next.offset = nextOffset scan.offset hdr := by
  rw [scanHeader] at moved
  split_ifs at moved
  · obtain ⟨file, -, same⟩ := bind_iff.1 moved
    exact (some.inj same) ▸ rfl
  · obtain ⟨-, -, same⟩ := bind_iff.1 moved
    exact (some.inj same) ▸ rfl

theorem scanLoop_fold (small : fs.deviceSize < 2 ^ 31) (below : last ≤ fs.deviceSize) (ends : Ends fs last)
    (chain : Chain fs.device pos members last) {fuel : Nat} (enough : members.length < fuel)
    {scan final : Scan} (offset : scan.offset = pos) (ran : members.foldlM (scanHeader fs) scan = some final) :
    ∃ header, scanLoop fs fuel scan = some { final with header := header } ∧
      (last + headerSize ≤ fs.deviceSize -> header = headerAt fs.device last) := by
  induction members generalizing pos fuel scan with
  | nil =>
    cases ran
    cases fuel with
    | zero => exact absurd enough (by simp)
    | succ fuel =>
      obtain rfl : pos = last := chain
      by_cases inside : pos + headerSize ≤ fs.deviceSize
      · have empty : (headerAt fs.device pos).getD 0 0 = 0 := by
          rw [headerAt_first]
          exact ends.resolve_left (Nat.not_lt.2 inside)
        refine ⟨headerAt fs.device pos, ?_, fun _ => rfl⟩
        simp only [scanLoop]
        rw [offset, readFromDevice_eq inside]
        exact if_pos empty
      · refine ⟨final.header, ?_, fun within => absurd within inside⟩
        have outside : ¬ (0 ≤ (pos : Int) ∧ (pos : Int) + headerSize ≤ fs.deviceSize) := by omega
        have unread : readFromDevice fs final.offset headerSize = none := by
          rw [offset, readFromDevice, if_neg outside]
        simp [scanLoop, unread]
  | cons hdr rest ih =>
    obtain ⟨read, named, valid, later⟩ := chain
    have fits := later.fits
    have inside : pos + headerSize ≤ fs.deviceSize := by
      simp only [blkSize, headerSize] at *
      omega
    cases fuel with
    | zero => exact absurd enough (by simp)
    | succ fuel =>
      obtain ⟨next, moved, ran⟩ := bind_iff.1 ran
      have offset' : next.offset = (pos + blkSize + roundUp (fileSize hdr).toNat : Nat) := by
        rw [scanHeader_offset moved, offset]
        exact nextOffset_eq valid (by omega)
      obtain ⟨header, looped, stopped⟩ := ih later (by simpa using enough) offset' ran
      refine ⟨header, ?_, stopped⟩
      simp only [scanLoop]
      rw [offset, readFromDevice_eq inside, read]
      simp only [if_neg named, moved]
      exact looped

def ScanKeeps (fs : TarFs) (members : List Bytes) (P : List Bytes -> Nat -> List TarFile -> Prop) : Prop :=
  ∀ before hdr rest pos scan next entries entries', members = before ++ hdr :: rest ->
    ScanInv fs before pos scan entries -> 0 ≤ fileSize hdr -> pos + blkSize + roundUp (fileSize hdr).toNat < 2 ^ 31 ->
    scanHeader fs scan hdr = some next ->
    ScanInv fs (before ++ [hdr]) (pos + blkSize + roundUp (fileSize hdr).toNat) next entries' -> P before pos entries ->
    P (before ++ [hdr]) (pos + blkSize + roundUp (fileSize hdr).toNat) entries'

theorem scan_spec (small : last < 2 ^ 31) {P : List Bytes -> Nat -> List TarFile -> Prop} {done : List Bytes}
    (room : (entryHeaders fs (done ++ members)).length < maxTarFiles) (chain : Chain fs.device pos members last)
    {scan : Scan}
    {entries : List TarFile} (inv : ScanInv fs done pos scan entries) (first : P done pos entries)
    (keeps : ScanKeeps fs (done ++ members) P) :
    ∃ final entries', members.foldlM (scanHeader fs) scan = some final ∧
      ScanInv fs (done ++ members) last final entries' ∧
      P (done ++ members) last entries' := by
  induction members generalizing done pos scan entries with
  | nil =>
    obtain rfl : pos = last := chain
    exact ⟨scan, entries, rfl, by rwa [append_nil], by rwa [append_nil]⟩
  | cons hdr rest ih =>
    obtain ⟨-, -, valid, later⟩ := chain
    have fits := later.fits
    have bound : pos + blkSize + roundUp (fileSize hdr).toNat < 2 ^ 31 := by omega
    rw [append_cons] at room keeps ⊢
    have fewer := entryHeaders_length_le fs (done ++ [hdr]) rest
    obtain ⟨next, entries', moved, after⟩ := scanHeader_spec inv valid bound (by omega)
    have holds := keeps done hdr rest pos scan next entries entries' (by simp) inv valid bound moved after first
    obtain ⟨final, entries'', ran, reached, holds'⟩ := ih room later after holds keeps
    refine ⟨final, entries'', ?_, reached, holds'⟩
    rw [foldlM_cons, moved]
    exact ran

end

def Scan.start (fs : TarFs) : Scan :=
  { files := [rootFile], filesystemSize := fs.filesystemSize, offset := 0, header := List.replicate headerSize 0 }

theorem ScanInv.start {fs : TarFs} (fresh : fs.filesystemSize = 0) : ScanInv fs [] 0 (Scan.start fs) [] := by
  refine ⟨rfl, rfl, rfl, ⟨⟨List.Pairwise.nil, by simp, by simp⟩, by simp⟩, by simp, by simp, by simp, .inr ?_⟩
  simp [Scan.start, fresh]

section

def TarFile.orphan (file : TarFile) : TarFile := { file with parent := 0 }

theorem trimSlash_orphan (file : TarFile) : trimSlash file.orphan = (trimSlash file).orphan := by
  have same : file.orphan.str = file.str := rfl
  simp only [trimSlash, same]
  by_cases trims : file.type = lfDir ∧ 1 < file.str.length ∧ file.str.getD (file.str.length - 1) 0 = slash
  · rw [if_pos trims, if_pos (show file.orphan.type = lfDir ∧ _ from trims)]
    simp only [TarFile.setByte]
    split_ifs <;> rfl
  · rw [if_neg trims, if_neg (show ¬ (file.orphan.type = lfDir ∧ _) from trims)]

theorem findParents_orphans (files : List TarFile) (i : Nat) :
    (findParents files i).map TarFile.orphan = (files.map TarFile.orphan).modify i trimSlash := by
  rw [findParents]
  cases here : files[i]? with
  | none => simp [modify_eq_set_getElem?, here]
  | some file =>
    generalize named : (if file.parent = -1 ∧ utStrstr (cstr ((file.name ++ file.archLinkname).drop 1)) [slash] = none
      then { file with parent := 0 } else file) = parented
    have child : (trimSlash parented).orphan = trimSlash file.orphan := by
      rw [← trimSlash_orphan, ← named]
      split_ifs <;> rfl
    have stored : (files.set i (trimSlash parented)).map TarFile.orphan =
        (files.map TarFile.orphan).modify i trimSlash := by
      rw [map_set, child]
      simp [modify_eq_set_getElem?, here]
    simp only [named]
    split_ifs
    · exact stored
    rw [← stored]
    apply ext_getElem?
    intro j
    simp only [List.getElem?_map, List.getElem?_mapIdx, Option.map_map]
    refine congrFun (congrArg Option.map (funext fun other => ?_)) _
    simp only [comp_apply]
    split_ifs <;> rfl

theorem foldl_modify (f : TarFile -> TarFile) (front rest : List TarFile) :
    (List.range' front.length rest.length).foldl (fun files i => files.modify i f) (front ++ rest) =
      front ++ rest.map f := by
  induction rest generalizing front with
  | nil => simp
  | cons file rest ih =>
    have moved : (front ++ file :: rest).modify front.length f = (front ++ [f file]) ++ rest := by
      induction front with
      | nil => rfl
      | cons first front ih => exact congrArg (first :: ·) ih
    have next := ih (front ++ [f file])
    rw [length_append, length_singleton] at next
    rw [length_cons, range'_succ, foldl_cons, moved, next, append_assoc]
    rfl

theorem findParents_all (root : TarFile) (rest : List TarFile) :
    ∃ first, first.name = root.name ∧ first.archLinkname = root.archLinkname ∧ first.place = root.place ∧
      ((List.range' 1 rest.length).foldl findParents (rootTimes (root :: rest))).map TarFile.orphan =
        first :: (rest.map trimSlash).map TarFile.orphan := by
  have passes (indices : List Nat) (files : List TarFile) : (indices.foldl findParents files).map TarFile.orphan =
      indices.foldl (fun files i => files.modify i trimSlash) (files.map TarFile.orphan) := by
    induction indices generalizing files with
    | nil => rfl
    | cons i indices ih => rw [foldl_cons, foldl_cons, ih, findParents_orphans]
  obtain ⟨first, name, link, place, times⟩ : ∃ first, first.name = root.name ∧ first.archLinkname = root.archLinkname ∧
      first.place = root.place ∧ rootTimes (root :: rest) = first :: rest := by
    rw [rootTimes]
    cases (root :: rest).getLast? with
    | none => exact ⟨root, rfl, rfl, rfl, rfl⟩
    | some last =>
      exact ⟨{ root with mtime := last.mtime, ctime := last.ctime, atime := last.atime, mode := last.mode },
        rfl, rfl, rfl, rfl⟩
  refine ⟨first.orphan, name, link, place, ?_⟩
  have all := foldl_modify trimSlash [first.orphan] (rest.map TarFile.orphan)
  rw [length_map, length_singleton, singleton_append, singleton_append] at all
  rw [passes, times, map_cons, all]
  simp [comp_def, trimSlash_orphan]

theorem findParents_places (root : TarFile) (rest : List TarFile) :
    ((List.range' 1 rest.length).foldl findParents (rootTimes (root :: rest))).map TarFile.place =
      root.place :: rest.map TarFile.place := by
  obtain ⟨first, -, -, place, passes⟩ := findParents_all root rest
  have trims (file : TarFile) : (trimSlash file).orphan.place = file.place := by
    obtain ⟨name, archLinkname, trimmed⟩ := trimSlash_fields file
    rw [trimmed]
    rfl
  have orphans : TarFile.place ∘ TarFile.orphan = TarFile.place := rfl
  have same := congrArg (map TarFile.place) passes
  simpa [List.map_map, orphans, comp_def, trims, place] using same

end

theorem scanDeviceForfiles_fold {fs : TarFs} {members : List Bytes} {last : Nat} (chain : Chain fs.device 0 members last)
    (ends : Ends fs last) (below : last ≤ fs.deviceSize) (small : fs.deviceSize < 2 ^ 31) {final : Scan}
    (ran : members.foldlM (scanHeader fs) (Scan.start fs) = some final) :
    ∃ magic, scanDeviceForfiles fs = some { fs with
      files := (List.range' 1 (final.files.length - 1)).foldl findParents (rootTimes final.files)
      filesystemSize := final.filesystemSize
      magic := magic } ∧ (last + headerSize ≤ fs.deviceSize -> magic.length = 8) := by
  have fits := chain.fits
  obtain ⟨header, looped, stopped⟩ := scanLoop_fold small below ends chain
    (by simp only [blkSize] at *; omega : members.length < fs.deviceSize / blkSize + 1) rfl ran
  refine ⟨field header 257 8, ?_, fun inside => by simp [stopped inside, field, headerAt, headerSize]⟩
  rw [Scan.start] at looped
  rw [scanDeviceForfiles, looped]
  rfl

variable {fs : TarFs} {members : List Bytes} (archive : Archive fs 0 members) (small : fs.deviceSize < 2 ^ 31)
  (fresh : fs.filesystemSize = 0) (blocks : blkSize ∣ fs.extentSize) (extent : fs.extentSize < 2 ^ 63)
  (room : (entryHeaders fs members).length < maxTarFiles) (linked : NoLinkedDummy fs members)

include archive small fresh blocks extent room linked

theorem scanDeviceForfiles_keeps {P : List Bytes -> Nat -> List TarFile -> Prop} (first : P [] 0 [])
    (keeps : ScanKeeps fs members P) :
    ∃ scanned last entries, scanDeviceForfiles fs = some scanned ∧ FsInv scanned ∧ P members last entries ∧
      scanned.files.map TarFile.place = rootFile.place :: entries.map TarFile.place := by
  obtain ⟨last, chain, ends, below⟩ := archive.chain
  obtain ⟨final, entries, ran, inv, holds⟩ := scan_spec (by omega : last < 2 ^ 31) (by exact room) chain
    (ScanInv.start fresh) first keeps
  obtain ⟨magic, scanned, -⟩ := scanDeviceForfiles_fold chain ends (by omega) small ran
  have marked : last ≤ final.filesystemSize ∧ final.filesystemSize ≤ last + blkSize := by
    rcases inv.size with ⟨file, ends, link, dummy⟩ | marked
    · obtain ⟨front, hdr, dummies, same, type, all, keeps⟩ := inv.link file ends link
      exact absurd (linked front hdr dummies (by simpa using same) type all) (keeps dummy)
    · exact marked
  have places := findParents_places rootFile entries
  rw [inv.files, length_cons, Nat.add_sub_cancel] at scanned
  refine ⟨_, last, entries, scanned, ?_, holds, ?_⟩
  all_goals generalize (List.range' 1 entries.length).foldl findParents (rootTimes (rootFile :: entries)) = files at *
  · cases files with
    | nil => cases places
    | cons root rest =>
      obtain ⟨rootPlace, restPlaces⟩ := cons.inj places
      refine ⟨?_, ⟨root, rfl, congrArg Place.regular rootPlace, congrArg Place.room rootPlace⟩, ?_, small, blocks,
        extent⟩
      · have table := inv.table.raise marked.1
        rw [← restPlaces] at table
        exact table
      · simp only [blkSize] at *
        omega
  · exact places

theorem scanDeviceForfiles_spec : ∃ scanned, scanDeviceForfiles fs = some scanned ∧ FsInv scanned := by
  obtain ⟨scanned, -, -, ran, inv, -, -⟩ := scanDeviceForfiles_keeps archive small fresh blocks extent room linked
    (P := fun _ _ _ => True) trivial fun _ _ _ _ _ _ _ _ _ _ _ _ _ _ _ => trivial
  exact ⟨scanned, ran, inv⟩

end JinyKernel.Tarfs
