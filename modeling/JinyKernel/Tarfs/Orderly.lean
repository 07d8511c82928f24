import JinyKernel.Tarfs.Contents
import JinyKernel.Tarfs.Run

namespace JinyKernel.Tarfs

open List Option Run

def Place.top (place : Place) : Nat := place.offset + roundUp place.length + place.room

def Place.Apart (left right : Place) : Prop :=
  left.regular = true -> right.regular = true -> left.offset ≠ right.offset ->
    left.top ≤ right.start ∨ right.top ≤ left.start

structure Orderly (fs : TarFs) : Prop where
  inv : FsInv fs
  apart : fs.places.Pairwise Place.Apart
  cleared : ∀ file ∈ fs.files, file.regularFile = false -> file.length = 0

theorem Place.Apart.symm {left right : Place} (apart : left.Apart right) : right.Apart left :=
  fun leftRegular rightRegular differ => (apart rightRegular leftRegular differ.symm).symm

instance : Std.Symm Place.Apart := ⟨fun _ _ => Place.Apart.symm⟩

section

variable {fs : TarFs} {i mark j : Nat} {file : TarFile} {old : Place}

theorem apart_set {places : List Place} (apart : places.Pairwise Place.Apart)
    (below : ∀ place ∈ places, place.regular = true -> place.top ≤ mark) {new : Place} (here : places[j]? = some old)
    (regular : new.regular = true -> old.regular = true) (offset : new.offset = old.offset)
    (top : new.regular = true -> new.top = old.top ∨ old.top = mark) : (places.set j new).Pairwise Place.Apart := by
  refine Reserve.pairwise_set (fun _ _ => Place.Apart.symm) apart here ?_
  intro other among clear isRegular otherRegular differ
  have otherBelow := below other among otherRegular
  have clear := clear (regular isRegular) otherRegular (offset ▸ differ)
  have grows := top isRegular
  simp only [Place.top, Place.start, offset, blkSize] at *
  omega

theorem Table.below {places : List Place} (table : Table mark places) :
    ∀ place ∈ places, place.regular = true -> place.top ≤ mark :=
  fun place among => (table.sound place among).below

theorem Orderly.set_apart (orderly : Orderly fs) {new : Place} (here : fs.places[j]? = some old)
    (regular : new.regular = true -> old.regular = true) (offset : new.offset = old.offset)
    (top : new.regular = true -> new.top = old.top ∨ old.top = fs.filesystemSize) :
    (fs.places.set j new).Pairwise Place.Apart :=
  apart_set orderly.apart orderly.inv.table.below here regular offset top

theorem cleared_set {files : List TarFile} (cleared : ∀ file ∈ files, file.regularFile = false -> file.length = 0)
    {new : TarFile} (empty : new.regularFile = false -> new.length = 0) :
    ∀ file ∈ files.set i new, file.regularFile = false -> file.length = 0 := by
  intro file among
  rcases mem_or_eq_of_mem_set among with old | rfl
  · exact cleared file old
  · exact empty

variable (orderly : Orderly fs)

include orderly

variable (driver : Driver)

theorem Orderly.sync (here : fs.places[j]? = some old) (dirty : file.metadataDirty = true)
    (inv : FsInv (syncFileMetadata fs driver (j + 1) file)) (regular : file.regularFile = true -> old.regular = true)
    (offset : file.deviceOffset = old.offset)
    (top : file.regularFile = true -> file.place.top = old.top ∨ old.top = fs.filesystemSize)
    (empty : file.regularFile = false -> file.length = 0) : Orderly (syncFileMetadata fs driver (j + 1) file) := by
  obtain ⟨device, synced⟩ := syncFileMetadata_fs fs driver (j + 1) dirty
  rw [synced] at inv ⊢
  refine ⟨inv, ?_, cleared_set orderly.cleared empty⟩
  rw [TarFs.places, places_set]
  exact orderly.set_apart here regular offset top

theorem Orderly.remove (here : fs.files[i]? = some file)
    (regular : file.regularFile = true) : Orderly (removeFile fs driver i file) := by
  obtain ⟨j, rfl, there⟩ := orderly.inv.index here regular
  have inv := removeFile_inv orderly.inv driver here regular
  rw [removeFile] at inv ⊢
  generalize removed : ({ file with
    regularFile := false
    dummyFile := true
    dummyfileLen := wrap (file.dummyfileLen + cielLength file.length + blkSize)
    length := 0
    metadataDirty := true } : TarFile) = gone at inv ⊢
  refine orderly.sync driver there (removed ▸ rfl) inv (fun still => ?_) (removed ▸ rfl) (fun still => ?_)
    fun _ => removed ▸ rfl
  all_goals
    rw [← removed] at still
    cases still

theorem Orderly.append (dirty : file.metadataDirty = true) (regular : file.regularFile = true)
    (next : file.deviceOffset = fs.filesystemSize + blkSize)
    (inv : FsInv (syncFileMetadata { fs with files := fs.files ++ [file], filesystemSize := mark } driver
      fs.files.length file)) :
    Orderly (syncFileMetadata { fs with files := fs.files ++ [file], filesystemSize := mark } driver
      fs.files.length file) := by
  obtain ⟨device, synced⟩ := syncFileMetadata_fs { fs with files := fs.files ++ [file], filesystemSize := mark } driver
    fs.files.length dirty
  rw [synced] at inv ⊢
  have placed : (fs.files ++ [file]).set fs.files.length { file with metadataDirty := false } =
      fs.files ++ [{ file with metadataDirty := false }] := by simp
  dsimp only at inv ⊢
  rw [placed] at inv ⊢
  obtain ⟨root, first, -⟩ := orderly.inv.root
  obtain ⟨rest, files⟩ := head?_eq_some_iff.1 first
  have places : (fs.files ++ [{ file with metadataDirty := false }]).tail.map TarFile.place =
      fs.places ++ [file.place] := by
    simp only [TarFs.places, files, cons_append, tail_cons, map_append]
    rfl
  refine ⟨inv, ?_, fun other among => ?_⟩
  · rw [TarFs.places, places, pairwise_append]
    refine ⟨orderly.apart, pairwise_singleton _ _, fun other among new only otherRegular _ _ => ?_⟩
    have below := (orderly.inv.table.sound other among).below otherRegular
    rw [mem_singleton.1 only]
    simp only [Place.top, Place.start, TarFile.place, next] at *
    omega
  · rcases mem_append.1 among with old | only
    · exact orderly.cleared other old
    · rw [mem_singleton.1 only]
      intro no
      exact absurd (regular.symm.trans no) (by simp)

theorem createNewFile_orderly (filename : Bytes) (directory : Bool)
    (free : fs.files.length < maxTarFiles) {made : Bool} {next : TarFs}
    (created : createNewFile fs driver filename directory = some (made, next)) : Orderly next := by
  obtain ⟨-, offset, -⟩ := orderly.inv.create_sums
  obtain ⟨_, _, same, inv, outcome⟩ := createNewFile_spec orderly.inv driver filename directory free
  cases same.symm.trans created
  rcases outcome with rfl | ⟨root, name, -, -, -, rfl⟩
  · exact orderly
  · exact orderly.append driver rfl rfl offset inv

theorem refillLast_orderly (here : fs.files[i]? = some file) (regular : file.regularFile = true) :
    Orderly (refillLast fs i file).1 := by
  obtain ⟨j, rfl, there⟩ := orderly.inv.index here regular
  have inv := (refillLast_spec orderly.inv here regular).1
  rw [refillLast] at inv ⊢
  split_ifs at inv ⊢ with last
  · obtain ⟨empty, ends, -⟩ := last
    obtain ⟨-, -, finish⟩ := orderly.inv.refill_sums here regular empty ends
    refine ⟨inv, ?_, cleared_set orderly.cleared fun no => absurd (regular.symm.trans no) (by simp)⟩
    rw [TarFs.places, places_set]
    refine orderly.set_apart there (fun _ => regular) rfl fun _ => .inr ?_
    simp only [Place.top, TarFile.place]
    omega
  · exact orderly

theorem Orderly.with_device (device : Nat -> UInt8) : Orderly { fs with device := device } :=
  ⟨orderly.inv.with_device device, orderly.apart, orderly.cleared⟩

theorem growFile_orderly (here : fs.files[i]? = some file)
    (regular : file.regularFile = true) (newSize : Nat) (offset retLen : Int)
    (inside : 0 < retLen -> newSize ≠ file.length ->
      toUlong (toInt (offset + retLen)) ≤ roundUp file.length + file.dummyfileLen) :
    Orderly (growFile fs driver i file newSize offset retLen) := by
  have inv := orderly.inv.growFile_inv driver here regular newSize offset retLen inside
  obtain ⟨j, rfl, there⟩ := orderly.inv.index here regular
  obtain ⟨blocks, rounded, below⟩ := orderly.inv.bounds here regular
  have size := orderly.inv.size
  have small := orderly.inv.small
  by_cases grows : 0 < retLen ∧ newSize ≠ file.length ∧ file.length < toUlong (toInt (offset + retLen))
  · obtain ⟨-, total⟩ := grown_room blocks (by omega) grows.2.2 (inside grows.1 grows.2.1)
    simp only [growFile, if_pos grows, rounded] at inv ⊢
    refine orderly.sync driver there rfl inv (fun _ => regular) rfl (fun _ => .inl ?_) fun no => ?_
    · simp only [Place.top, TarFile.place, Nat.add_assoc, total]
    · exact absurd (regular.symm.trans no) (by simp)
  · rw [growFile, if_neg grows]
    exact orderly

theorem writeFileContents_orderly {driver : Driver} (honest : driver.Honest) {filename : Bytes}
    (buf : Bytes) {lenArg offset : Int} (lenRange : -2 ^ 31 ≤ lenArg ∧ lenArg < 2 ^ 31)
    (offsetRange : -2 ^ 31 ≤ offset ∧ offset < 2 ^ 31)
    (regular : ∀ i file, findFile fs filename = some (i, file) -> file.regularFile = true) :
    Orderly (writeFileContents fs driver filename buf lenArg offset).2 := by
  refine writeFileContents_keeps orderly.inv orderly honest buf lenRange offsetRange regular ?_ ?_
  · exact fun i file => refillLast_orderly orderly
  · intro mid i file device newSize retLen _ before here isRegular inside
    exact growFile_orderly (before.with_device device) driver here isRegular newSize offset retLen inside

theorem step_orderly {event : Event} (allowed : Allowed fs event) (current : Current fs event)
    {next : TarFs} (stepped : step fs event = some next) : Orderly next := by
  cases event with
  | create driver filename directory =>
    obtain ⟨⟨made, made_next⟩, created, rfl⟩ := map_eq_some_iff.1 stepped
    exact createNewFile_orderly orderly driver filename directory current created
  | write driver filename buf len offset =>
    cases stepped
    exact writeFileContents_orderly orderly allowed.1 buf allowed.2.2.1 allowed.2.2.2 current
  | remove driver filename =>
    cases stepped
    rw [remove]
    cases found : findFile fs filename with
    | none => exact orderly
    | some target => exact orderly.remove driver (findFile_spec found).2 (current target.1 target.2 found)

end

def LinksBare (fs : TarFs) (members : List Bytes) : Prop :=
  ∀ front link dummy rest, members = front ++ link :: dummy :: rest -> link.getD 156 0 = lfLink ->
    isDummy fs dummy = false

theorem LinksBare.noLinkedDummy {fs : TarFs} {members : List Bytes} (bare : LinksBare fs members) :
    NoLinkedDummy fs members := by
  intro front link dummies same type all
  cases dummies with
  | nil => rfl
  | cons dummy rest =>
    have plain := bare front link dummy rest same type
    exact absurd ((all dummy (by simp)).symm.trans plain) (by simp)

section

variable {fs : TarFs} {done : List Bytes} {pos : Nat} {scan next : Scan} {entries entries' : List TarFile} {hdr : Bytes}

theorem scanHeader_files (moved : scanHeader fs scan hdr = some next) :
    (isDummy fs hdr = true ∧ ∃ root front last, scan.files = root :: (front ++ [last]) ∧
      next.files = root :: (front ++ [addDummy last hdr])) ∨
    next.files = scan.files ++ [resolveLink scan.files hdr (trimSlash (newEntry scan.offset hdr))] := by
  rw [scanHeader] at moved
  split_ifs at moved with dummy
  · obtain ⟨last, found, same⟩ := bind_iff.1 moved
    cases same
    obtain ⟨front, split⟩ := getLast?_eq_some_iff.1 found
    cases front with
    | nil => exact absurd dummy.2 (by simp [split])
    | cons root front =>
      refine .inl ⟨dummy.1, root, front, last, split, ?_⟩
      rw [split, dropLast_concat]
      rfl
  · obtain ⟨-, -, same⟩ := bind_iff.1 moved
    cases same
    exact .inr rfl

theorem ScanInv.entry_apart (inv : ScanInv fs done pos scan entries)
    (bound : pos + blkSize + roundUp (fileSize hdr).toNat < 2 ^ 31)
    (apart : (entries.map TarFile.place).Pairwise Place.Apart) :
    ((entries ++ [resolveLink scan.files hdr (trimSlash (newEntry scan.offset hdr))]).map
      TarFile.place).Pairwise Place.Apart := by
  have own : (newEntry scan.offset hdr).deviceOffset = pos + blkSize := by
    rw [inv.offset]
    exact newEntry_offset (by omega)
  rw [map_append, pairwise_append]
  refine ⟨apart, pairwise_singleton _ _, fun other among new only otherRegular regular differ => ?_⟩
  rw [mem_singleton.1 only] at differ ⊢
  have otherBelow := inv.table.below other among otherRegular
  obtain ⟨name, archLinkname, trimmed⟩ := trimSlash_fields (newEntry scan.offset hdr)
  rw [trimmed] at differ ⊢
  rcases resolveLink_fields scan.files hdr { newEntry scan.offset hdr with name := name, archLinkname := archLinkname }
    with same | ⟨-, target, member, same⟩
  · rw [same] at differ ⊢
    simp only [Place.start, TarFile.place, own]
    omega
  rw [same] at differ ⊢
  simp only [inv.files, mem_cons] at member
  rcases member with rfl | member
  · -- A link to the root has nothing.
    simp [Place.top, TarFile.place, newEntry, rootFile, roundUp, blkSize]
  have clear : other.Apart target.place := by
    by_cases itself : other = target.place
    · exact fun _ _ no => absurd (congrArg Place.offset itself) no
    · exact apart.forall among (mem_map_of_mem member) itself
  have targetRegular := inv.regular target member
  have split := clear otherRegular targetRegular differ
  simp only [Place.top, Place.start, TarFile.place, newEntry] at split ⊢
  omega

theorem ScanInv.keeps_apart {rest members : List Bytes} (bare : LinksBare fs members)
    (split : members = done ++ hdr :: rest) (inv : ScanInv fs done pos scan entries)
    (bound : pos + blkSize + roundUp (fileSize hdr).toNat < 2 ^ 31) (moved : scanHeader fs scan hdr = some next)
    (after : ScanInv fs (done ++ [hdr]) (pos + blkSize + roundUp (fileSize hdr).toNat) next entries')
    (apart : (entries.map TarFile.place).Pairwise Place.Apart) :
    (entries'.map TarFile.place).Pairwise Place.Apart := by
  have listed := after.files
  rcases scanHeader_files moved with ⟨dummy, root, front, last, before, files⟩ | files
  · rw [inv.files] at before
    obtain rfl := (cons.inj before).2
    rw [files] at listed
    obtain rfl := (cons.inj listed).2
    have here : ((front ++ [last]).map TarFile.place)[front.length]? = some last.place := by simp
    have replaced : (front ++ [addDummy last hdr]).map TarFile.place =
        ((front ++ [last]).map TarFile.place).set front.length (addDummy last hdr).place := by simp
    rw [replaced]
    refine apart_set apart inv.table.below here id rfl fun _ => .inr ?_
    by_cases isLink : last.type = lfLink
    · obtain ⟨earlier, link, dummies, same, type, all, -⟩ := inv.link last (by simp) isLink
      -- The header behind the link is a dummy, this one or an earlier one.
      cases dummies with
      | nil =>
        have plain := bare earlier link hdr rest (by simp [split, same]) type
        exact absurd (dummy.symm.trans plain) (by simp)
      | cons other more =>
        have plain := bare earlier link other (more ++ hdr :: rest) (by simp [split, same]) type
        exact absurd ((all other (by simp)).symm.trans plain) (by simp)
    · exact inv.last last (by simp) isLink
  · rw [files, inv.files, cons_append] at listed
    obtain rfl := (cons.inj listed).2
    have apart' := inv.entry_apart bound apart
    rw [inv.files] at apart'
    exact apart'

end

theorem Volume.scanned_orderly (volume : Volume) (room : (entryHeaders volume.fs volume.members).length < maxTarFiles)
    (bare : LinksBare volume.fs volume.members) : ∃ fs, scanDeviceForfiles volume.fs = some fs ∧ Orderly fs := by
  have bound := volume.extent
  have extent : volume.fs.extentSize < 2 ^ 63 := by
    change cielLength volume.extentSizeArg < 2 ^ 63
    rw [cielLength_eq (by omega)]
    simp only [roundUp, blkSize]
    omega
  obtain ⟨fs, -, entries, scanned, inv, apart, places⟩ := scanDeviceForfiles_keeps volume.archive volume.small rfl
    (cielLength_blocks _) extent room bare.noLinkedDummy (P := fun _ _ entries =>
      (entries.map TarFile.place).Pairwise Place.Apart ∧ ∀ file ∈ entries, file.regularFile = true)
    ⟨List.Pairwise.nil, by simp⟩ fun before hdr rest pos scan next entries entries' split inv _ bound moved after holds =>
      ⟨inv.keeps_apart bare split bound moved after holds.1, after.regular⟩
  refine ⟨fs, scanned, inv, ?_, ?_⟩
  · rw [TarFs.places, map_tail, places]
    exact apart.1
  intro file among removed
  have listed := places ▸ mem_map_of_mem among
  rcases mem_cons.1 listed with root | later
  · exact congrArg Place.length root
  · obtain ⟨entry, member, same⟩ := mem_map.1 later
    have regular : file.regularFile = true := (congrArg Place.regular same).symm.trans (apart.2 entry member)
    exact absurd (removed.symm.trans regular) (by simp)

abbrev Volume.Reaches (volume : Volume) (fs : TarFs) : Prop :=
  Reachable volume.Start step (fun fs event => Allowed fs event ∧ Current fs event) fs

theorem reachable_orderly {volume : Volume} (room : (entryHeaders volume.fs volume.members).length < maxTarFiles)
    (bare : LinksBare volume.fs volume.members) {fs : TarFs} (reached : volume.Reaches fs) : Orderly fs := by
  obtain ⟨start, scanned, first⟩ := volume.scanned_orderly room bare
  refine reached.invariant (fun other same => some.inj (scanned.symm.trans same) ▸ first) ?_
  exact fun state event next before may moved => step_orderly before may.1 may.2 moved

end JinyKernel.Tarfs
