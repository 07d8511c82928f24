import JinyKernel.Tarfs.Header

-- fs/tar_fs.cc: `driver` reports on the device writes; `none` is a write behind the table or a scan without
-- end.

namespace JinyKernel.Tarfs

def maxTarFiles : Nat := 1024

structure TarFs where
  files : List TarFile
  magic : Bytes
  filesystemSize : Nat
  deviceSize : Nat
  extentSize : Nat
  device : Nat -> UInt8
  mntPoint : Bytes
  dummyPrefix : Bytes

abbrev Driver := Int -> Int -> Int

def cielLength (length : Nat) : Nat :=
  if length / blkSize * blkSize ≠ length then wrap ((length / blkSize + 1) * blkSize) else length / blkSize * blkSize

variable (fs : TarFs)

def readFromDevice (offset : Int) (len : Nat) : Option Bytes :=
  if 0 ≤ offset ∧ offset + len ≤ fs.deviceSize then
    some ((List.range len).map fun i => fs.device (offset.toNat + i))
  else none

variable (driver : Driver)

def writeToDevice (offset : Int) (buf : Bytes) (len : Int) : Int × TarFs :=
  let ret := driver offset len
  (ret, { fs with device := fun pos =>
    if offset ≤ pos ∧ pos < offset + ret then buf.getD (pos - offset).toNat 0 else fs.device pos })

def initTarfs (device : Nat -> UInt8) (deviceSize extentSizeArg : Nat) (mntPoint dummyPrefix : Bytes) : TarFs :=
  { files := []
    magic := List.replicate 8 0
    filesystemSize := 0
    deviceSize := deviceSize
    extentSize := cielLength extentSizeArg
    device := device
    mntPoint := mntPoint
    dummyPrefix := dummyPrefix }

section

-- The loop condition reads `(i < filename[i]) != 0`.
def regularise (filename : Bytes) : Nat -> Nat -> Bytes
  | 0, _ => []
  | fuel + 1, i =>
    let c := filename.getD i 0
    if i < c.toNat ∧ i < namsiz then
      if c = slash ∧ filename.getD (i + 1) 0 = slash then slash :: regularise filename fuel (i + 2)
      else c :: regularise filename fuel (i + 1)
    else []

def regularisedFilename (filename : Bytes) : Option Bytes :=
  let newFilename := regularise filename namsiz 0
  if utStrstr newFilename fs.mntPoint = some 0 then some newFilename else none

def prefixLen (filename : Bytes) : Nat :=
  if filename.getD fs.mntPoint.length 0 = slash then fs.mntPoint.length + 1 else fs.mntPoint.length

def getFile (filenameArg : Bytes) : Option Nat := do
  let filename ← regularisedFilename fs filenameArg
  let len := filename.length
  let filename :=
    if 1 < len ∧ filename.getD (len - 1) 0 = 46 ∧ filename.getD (len - 2) 0 = slash then filename.take (len - 2)
    else filename
  if filename.length = fs.mntPoint.length then some 0
  else fs.files.findIdx? fun file => file.str == filename.drop (prefixLen fs filename)

def findFile (filename : Bytes) : Option (Nat × TarFile) := do
  let i ← getFile fs filename
  let file ← fs.files[i]?
  some (i, file)

end

section

structure Scan where
  files : List TarFile
  filesystemSize : Nat
  offset : Int
  header : Bytes

def rootFile : TarFile :=
  { name := put (List.replicate namsiz 0) 0 [46, 0]
    archLinkname := List.replicate namsiz 0
    length := 0
    mtime := 0
    ctime := 0
    atime := 0
    mode := 0
    deviceOffset := 0
    type := lfDir
    linkId := 0
    parent := 0
    metadataDirty := false
    dummyFile := false
    regularFile := false
    specialFile := true
    dummyfileLen := 0 }

def TarFile.setByte (file : TarFile) (i : Nat) (value : UInt8) : TarFile :=
  if i < namsiz then { file with name := file.name.set i value }
  else { file with archLinkname := file.archLinkname.set (i - namsiz) value }

def trimSlash (file : TarFile) : TarFile :=
  let len := file.str.length
  if file.type = lfDir ∧ 1 < len ∧ file.str.getD (len - 1) 0 = slash then file.setByte (len - 1) 0 else file

def fileSize (hdr : Bytes) : Int := fromOct (field hdr 124 12)

def blks (hdr : Bytes) : Int := toInt (cielLength (toUlong (fileSize hdr)) / blkSize : Nat)

def nextOffset (offset : Int) (hdr : Bytes) : Int := toInt (offset + blkSize + toInt (blks hdr * blkSize))

def newEntry (offset : Int) (hdr : Bytes) : TarFile :=
  { name := field hdr 0 namsiz
    archLinkname := field hdr 157 namsiz
    length := toUlong (fileSize hdr)
    mtime := toUlong (fromOct (field hdr 136 12))
    ctime := toUlong (fromOct (field hdr 357 12))
    atime := toUlong (fromOct (field hdr 345 12))
    mode := toUlong (fromOct (field hdr 100 8))
    deviceOffset := toUlong (toInt (offset + blkSize))
    type := hdr.getD 156 0
    linkId := -1
    parent := -1
    metadataDirty := false
    dummyFile := false
    regularFile := true
    specialFile := false
    dummyfileLen := 0 }

variable (files : List TarFile)

def resolveLink (hdr : Bytes) (file : TarFile) : TarFile :=
  if file.type = lfLink then
    match files.find? fun target => target.str == cstr (hdr.drop 157) with
    | some target => { file with deviceOffset := target.deviceOffset, length := target.length }
    | none => file
  else file

def isDummy (hdr : Bytes) : Bool := (utStrstr (cstr hdr) fs.dummyPrefix).isSome

def addDummy (file : TarFile) (hdr : Bytes) : TarFile :=
  { file with
    dummyFile := true
    dummyfileLen := wrap (file.dummyfileLen + toUlong (toInt ((blks hdr + 1) * blkSize))) }

def scanHeader (scan : Scan) (hdr : Bytes) : Option Scan :=
  if isDummy fs hdr ∧ 1 < scan.files.length then do
    let last ← scan.files.getLast?
    let grown := addDummy last hdr
    some { files := scan.files.dropLast ++ [grown]
           filesystemSize := wrap (grown.deviceOffset + (grown.length + grown.dummyfileLen + blkSize))
           offset := nextOffset scan.offset hdr
           header := hdr }
  else do
    guard (scan.files.length < maxTarFiles)
    let entry := newEntry scan.offset hdr
    some { files := scan.files ++ [resolveLink scan.files hdr (trimSlash entry)]
           filesystemSize := wrap (entry.deviceOffset + toUlong (toInt (blks hdr * blkSize)))
           offset := nextOffset scan.offset hdr
           header := hdr.set 0 0 }

def scanLoop (fs : TarFs) : Nat -> Scan -> Option Scan
  | 0, _ => none
  | fuel + 1, scan =>
    match readFromDevice fs scan.offset headerSize with
    | none => some scan
    | some hdr =>
      if hdr.getD 0 0 = 0 then some { scan with header := hdr }
      else do
        let next ← scanHeader fs scan hdr
        scanLoop fs fuel next

def findParents (i : Nat) : List TarFile :=
  match files[i]? with
  | none => files
  | some file =>
    let file := if file.parent = -1 ∧ utStrstr (cstr ((file.name ++ file.archLinkname).drop 1)) [slash] = none
      then { file with parent := 0 } else file
    let dir := trimSlash file
    let files := files.set i dir
    if dir.type ≠ lfDir then files
    else files.mapIdx fun j child =>
      if j ≠ i ∧ child.parent = -1 ∧ utStrstr child.str dir.str = some 0 ∧
          utStrstr (cstr ((child.name ++ child.archLinkname).drop (dir.str.length + 1))) [slash] = none
      then { child with parent := i } else child

def rootTimes : List TarFile :=
  match files.getLast? with
  | none => files
  | some last => files.modify 0 fun root =>
    { root with mtime := last.mtime, ctime := last.ctime, atime := last.atime, mode := last.mode }

-- A scan with more rounds has come back to an offset and has no end.
def scanDeviceForfiles : Option TarFs := do
  let scan ← scanLoop fs (fs.deviceSize / blkSize + 1)
    { files := [rootFile], filesystemSize := fs.filesystemSize, offset := 0, header := List.replicate headerSize 0 }
  let files := (List.range' 1 (scan.files.length - 1)).foldl findParents (rootTimes scan.files)
  some { fs with files := files, filesystemSize := scan.filesystemSize, magic := field scan.header 257 8 }

end

def writeMetaBlock (file : TarFile) (hdr : Bytes) : TarFs :=
  if file.regularFile then (writeToDevice fs driver (toInt (wrapSub file.deviceOffset blkSize)) hdr headerSize).2
  else fs

-- The dummy header stands behind the contents, or in the place of a removed file's.
def writeDummyBlock (file : TarFile) (dummyHdr : Bytes) : TarFs :=
  let blks : Int := if file.regularFile then toInt (cielLength file.length / blkSize : Nat) else -1
  if file.dummyFile ∧ 0 < file.dummyfileLen then
    (writeToDevice fs driver (toInt (file.deviceOffset + toUlong (blks * blkSize) : Nat)) dummyHdr headerSize).2
  else fs

variable (i : Nat)

variable (file : TarFile)

def syncFileMetadata : TarFs :=
  if file.metadataDirty = false then fs
  else
    let headers := storeToHeader file fs.magic fs.dummyPrefix
    let fs := writeDummyBlock (writeMetaBlock fs driver file headers.1) driver file headers.2
    { fs with files := fs.files.set i { file with metadataDirty := false } }

def newFile (root : TarFile) (name : Bytes) (directory : Bool) : TarFile :=
  { root with
    name := put root.name 0 name
    length := 0
    deviceOffset := wrap (fs.filesystemSize + blkSize)
    type := if directory then lfDir else lfNormal
    metadataDirty := true
    dummyFile := !directory
    regularFile := true
    specialFile := false
    dummyfileLen := if directory then root.dummyfileLen else wrap (blkSize + fs.extentSize) }

def createNewFile (filenameArg : Bytes) (directory : Bool) : Option (Bool × TarFs) :=
  if fs.deviceSize < wrap (fs.filesystemSize + 2 * blkSize + fs.extentSize) then some (false, fs)
  else
    match regularisedFilename fs filenameArg with
    | none => some (false, fs)
    | some filename => do
        guard (fs.files.length < maxTarFiles)
        let root ← fs.files.head?
        let file := newFile fs root (filename.drop (prefixLen fs filename)) directory
        let grown := { fs with
          files := fs.files ++ [file]
          filesystemSize := wrap (fs.filesystemSize + 2 * blkSize + fs.extentSize) }
        some (true, syncFileMetadata grown driver fs.files.length file)

def openFile (filename : Bytes) (creat directory : Bool) : Option (Bool × TarFs) :=
  if (getFile fs filename).isSome then some (true, fs)
  else if creat then createNewFile fs driver filename directory
  else some (false, fs)

-- `remove_file`. Its test `inmem_flags | FLAG_REGULAR_FILE` is true of every entry.
def removeFile : TarFs :=
  let removed := { file with
    regularFile := false
    dummyFile := true
    dummyfileLen := wrap (file.dummyfileLen + cielLength file.length + blkSize)
    length := 0
    metadataDirty := true }
  syncFileMetadata fs driver i removed

def remove (filename : Bytes) : Bool × TarFs :=
  match findFile fs filename with
  | none => (false, fs)
  | some (i, file) => (true, removeFile fs driver i file)

def refillLast : TarFs × TarFile :=
  if file.dummyfileLen = 0 ∧ wrap (cielLength file.length + file.deviceOffset) = fs.filesystemSize ∧
      wrap (fs.filesystemSize + fs.extentSize) < fs.deviceSize then
    let grown := { file with dummyfileLen := wrap (file.dummyfileLen + fs.extentSize), metadataDirty := true }
    ({ fs with files := fs.files.set i grown, filesystemSize := wrap (fs.filesystemSize + fs.extentSize) }, grown)
  else (fs, file)

def writeLoop (driver : Driver) (start : Nat) (buf : Bytes) (allowedLength : Nat) : Nat -> TarFs -> Int -> Int × TarFs
  | 0, fs, retLen => (retLen, fs)
  | fuel + 1, fs, retLen =>
    let left := wrapSub allowedLength (toUlong retLen)
    if 0 < left then
      let stored := writeToDevice fs driver (toInt (start + toUlong retLen : Nat)) (buf.drop retLen.toNat) (toInt left)
      if 0 < stored.1 then writeLoop driver start buf allowedLength fuel stored.2 (toInt (retLen + stored.1))
      else (retLen, stored.2)
    else (retLen, fs)

def growFile (newSize : Nat) (offset retLen : Int) : TarFs :=
  let reached := toUlong (toInt (offset + retLen))
  if 0 < retLen ∧ newSize ≠ file.length ∧ file.length < reached then
    let oldLen := cielLength file.length
    syncFileMetadata fs driver i { file with
      length := reached
      dummyfileLen := if oldLen < reached then wrapSub file.dummyfileLen (cielLength (reached - oldLen))
        else file.dummyfileLen
      metadataDirty := true }
  else fs

def storeContents (buf : Bytes) (offset : Int) (newSize allowedLength : Nat) : Int × TarFs :=
  let stored := writeLoop driver (wrap (file.deviceOffset + toUlong offset)) buf allowedLength (allowedLength + 1) fs 0
  (stored.1, growFile stored.2 driver i file newSize offset stored.1)

def writeFileContents (filename buf : Bytes) (lenArg offset : Int) : Int × TarFs :=
  match findFile fs filename with
  | none => (0, fs)
  | some (i, file) =>
    let total := toUlong (toInt (offset + lenArg))
    if file.length ≤ total then
      let refilled := refillLast fs i file
      let allowedSize := wrap (cielLength file.length + refilled.2.dummyfileLen)
      if toUlong offset < allowedSize then
        storeContents refilled.1 driver i refilled.2 buf offset total
          (if allowedSize < total then wrapSub allowedSize (toUlong offset) else toUlong lenArg)
      else (lenArg, refilled.1)
    else storeContents fs driver i file buf offset file.length (toUlong lenArg)

def readLoop (fs : TarFs) (start : Nat) (lenArg : Int) (readAhead : Bool) : Nat -> Int -> Bytes -> Int × Bytes
  | 0, retLen, out => (retLen, out)
  | fuel + 1, retLen, out =>
    if 0 < lenArg - retLen then
      (readFromDevice fs (toInt (start + toUlong retLen : Nat)) (lenArg - retLen).toNat).elim (retLen, out) fun bytes =>
        if readAhead then (retLen + bytes.length, out ++ bytes)
        else readLoop fs start lenArg readAhead fuel (retLen + bytes.length) (out ++ bytes)
    else (retLen, out)

-- What it returns and what it has put into the buffer.
def readFileContents (filename : Bytes) (lenArg offset : Int) (readAhead : Bool) : Int × Bytes :=
  match findFile fs filename with
  | none => (0, [])
  | some (_, file) =>
    let lenArg := if readAhead then 4096 else lenArg
    if file.length ≤ toUlong offset then (-1, [])
    else
      let lenArg := if file.length ≤ toUlong (toInt (offset + lenArg)) then toInt (wrapSub file.length (toUlong offset))
        else lenArg
      readLoop fs (wrap (file.deviceOffset + toUlong offset)) lenArg readAhead (lenArg.toNat + 1) 0 []

end JinyKernel.Tarfs
