import JinyKernel.Files.Model

namespace JinyKernel.Files

open Function

def FileType.counted : FileType -> Bool
  | .regular | .network | .outPipe | .inPipe | .eventPoll => true
  | _ => false

def File.Wired (file : File) : Prop := file.type.counted -> file.vinode ≠ 0

variable (fs : Fs)

structure TableInv : Prop where
  natural : 0 ≤ fs.total
  most : fs.total ≤ maxFds
  below : ∀ i, fs.filep i ≠ 0 -> (i : Int) < fs.total
  distinct : ∀ i j, fs.filep i ≠ 0 -> fs.filep i = fs.filep j -> i = j
  wired : ∀ i, fs.filep i ≠ 0 -> (fs.file (fs.filep i)).Wired

def Fresh (alloc : Nat) : Prop := ∀ i, fs.filep i ≠ 0 -> fs.filep i ≠ alloc

def Fs.lookup (fd : Int) : Nat := if 0 ≤ fd ∧ fd < fs.total then fs.filep fd.toNat else 0

def retain (objects : Nat -> Option Object) (file : File) : Nat -> Option Object :=
  if file.type.counted then update objects file.vinode ((objects file.vinode).map Object.inc) else objects

def release (closes : FileType -> Bool) (objects : Nat -> Option Object) (file : File) : Nat -> Option Object :=
  if closes file.type then update objects file.vinode ((objects file.vinode).bind Object.close) else objects

def install (i fp : Nat) (file : File) (objects : Nat -> Option Object) : Fs where
  filep := update fs.filep i fp
  total := if (i : Int) ≥ fs.total then i + 1 else fs.total
  file := update fs.file fp file
  object := objects

abbrev installPipe (i wfp wpipe j rfp rpipe : Nat) : Fs :=
  install (install fs i wfp ⟨.outPipe, wpipe⟩ fs.object) j rfp ⟨.inPipe, rpipe⟩
    (update (update fs.object wpipe (some ⟨.pipe, 1, 0⟩)) rpipe (some ⟨.pipe, 1, 0⟩))

def rebind (fp : Nat) (file : File) : Fs :=
  { fs with
    file := update fs.file fp file
    object := retain (release FileType.closedByDup fs.object (fs.file fp)) file }

def detach (i : Nat) : Fs :=
  { fs with
    filep := update fs.filep i 0
    file := update fs.file (fs.filep i) { fs.file (fs.filep i) with vinode := 0 }
    object := release FileType.counted fs.object (fs.file (fs.filep i)) }

section

variable {fs : Fs}

theorem readFilep_eq {i : Nat} (within : i < maxFds) : readFilep fs i = .ok (fs.filep i) := by
  rw [readFilep, if_pos (by omega), Int.toNat_natCast]

theorem writeFilep_eq {i : Nat} (within : i < maxFds) (fp : Nat) :
    writeFilep fs i fp = .ok { fs with filep := update fs.filep i fp } := by
  rw [writeFilep, if_pos (by omega), Int.toNat_natCast]

theorem fdToFile_eq (inv : TableInv fs) (fd : Int) : fdToFile fs fd = .ok (fs.lookup fd) := by
  have most := inv.most
  by_cases within : 0 ≤ fd ∧ fd < fs.total
  · rw [fdToFile, if_pos (by omega), readFilep, if_pos (by omega), Fs.lookup, if_pos within]
  · rw [fdToFile, if_neg (by omega), Fs.lookup, if_neg within]

theorem lookup_eq (inv : TableInv fs) (i : Nat) : fs.lookup i = fs.filep i := by
  by_cases within : (i : Int) < fs.total
  · rw [Fs.lookup, if_pos (by omega), Int.toNat_natCast]
  have empty : fs.filep i = 0 := by
    by_contra used
    exact within (inv.below i used)
  rw [Fs.lookup, if_neg (by omega), empty]

theorem lookup_entry (inv : TableInv fs) {fd : Int} (used : fs.lookup fd ≠ 0) :
    ∃ i : Nat, fd = i ∧ i < maxFds ∧ fs.lookup fd = fs.filep i := by
  have most := inv.most
  by_cases within : 0 ≤ fd ∧ fd < fs.total
  · exact ⟨fd.toNat, by omega, by omega, by rw [Fs.lookup, if_pos within]⟩
  · exact absurd (if_neg within) used

theorem freeLoop_spec (n : Nat) (start : Nat) (ends : start + n = maxFds) :
    freeLoop fs n start = .ok none ∨
      ∃ i : Nat, start ≤ i ∧ i < maxFds ∧ fs.filep i = 0 ∧ freeLoop fs n start = .ok (some (i : Int)) := by
  induction n generalizing start with
  | zero => exact .inl rfl
  | succ n ih =>
    have within : start < maxFds := by omega
    rw [freeLoop, readFilep_eq within]
    by_cases free : fs.filep start = 0
    · exact .inr ⟨start, le_refl _, within, free, by simp [free, bind, Except.bind]⟩
    rcases ih (start + 1) (by omega) with full | ⟨i, low, high, empty, found⟩
    · left
      simpa [free, bind, Except.bind] using full
    · right
      exact ⟨i, by omega, high, empty, by simpa [free, bind, Except.bind] using found⟩

theorem findFree_spec (fs : Fs) (start : Int) (low : 0 ≤ start) :
    findFree fs start = .ok none ∨
      ∃ i : Nat, start ≤ i ∧ i < maxFds ∧ fs.filep i = 0 ∧ findFree fs start = .ok (some (i : Int)) := by
  lift start to Nat using low
  by_cases inside : start ≤ maxFds
  · simpa [findFree] using freeLoop_spec _ start (by omega)
  left
  have zero : (maxFds - (start : Int)).toNat = 0 := by omega
  rw [findFree, zero]
  rfl

theorem store_eq {i : Nat} (within : i < maxFds) (fp : Nat) :
    store fs i fp = .ok { fs with
      filep := update fs.filep i fp
      total := if (i : Int) ≥ fs.total then i + 1 else fs.total } := by
  rw [store, writeFilep_eq within]

theorem dupClose_eq {new : Nat} (wired : (fs.file new).Wired) :
    dupClose fs new = .ok { fs with object := release FileType.closedByDup fs.object (fs.file new) } := by
  by_cases closes : (fs.file new).type.closedByDup
  · have named : (fs.file new).vinode ≠ 0 := by
      apply wired
      revert closes
      cases (fs.file new).type <;> simp [FileType.closedByDup, FileType.counted]
    rw [dupClose, if_pos closes, if_neg named, release, if_pos closes, vinodeClose]
  · rw [dupClose, if_neg closes, release, if_neg closes]

theorem dupCopy_eq {old : Nat} (new : Nat) (wired : (fs.file old).Wired) :
    dupCopy fs old new = .ok { fs with
      file := update fs.file new (fs.file old)
      object := retain fs.object (fs.file old) } := by
  rw [File.Wired] at wired
  unfold dupCopy retain setFile vinodeInc
  generalize fs.file old = file at wired ⊢
  obtain ⟨type, vinode⟩ := file
  cases type <;> simp_all [FileType.counted]

theorem fsDup_open {old new : Nat} (alloc : Nat) (source : old ≠ 0) (target : new ≠ 0)
    (wiredOld : (fs.file old).Wired) (wiredNew : (fs.file new).Wired) :
    fsDup fs old new alloc = .ok (new, rebind fs new (fs.file old)) := by
  have copied : dupCopy { fs with object := release FileType.closedByDup fs.object (fs.file new) } old new = _ :=
    dupCopy_eq new wiredOld
  rw [fsDup, if_neg source, if_pos target, dupClose_eq wiredNew]
  simp only [bind, Except.bind, copied]
  rfl

theorem fsDup_blank {old new : Nat} (alloc : Nat) (source : old ≠ 0) (target : new ≠ 0)
    (wired : (fs.file old).Wired) (blank : fs.file new = {}) :
    fsDup fs old new alloc = .ok (new, { fs with
      file := update fs.file new (fs.file old)
      object := retain fs.object (fs.file old) }) := by
  have unwired : (fs.file new).Wired := by
    rw [blank]
    intro counted
    cases counted
  have kept : release FileType.closedByDup fs.object (fs.file new) = fs.object := by
    rw [blank]
    rfl
  rw [fsDup_open alloc source target wired unwired, rebind, kept]

theorem fsDup_alloc {old alloc : Nat} (source : old ≠ 0) (got : alloc ≠ 0) (apart : old ≠ alloc)
    (wired : (fs.file old).Wired) :
    fsDup fs old 0 alloc = .ok (alloc, { fs with
      file := update fs.file alloc (fs.file old)
      object := retain fs.object (fs.file old) }) := by
  have same : fsDup fs old 0 alloc = fsDup (setFile fs alloc {}) old alloc 0 := by
    rw [fsDup, fsDup, if_neg source, if_neg source, if_neg (by simp), if_pos got, if_pos got]
  have read : (setFile fs alloc {}).file old = fs.file old := update_of_ne apart ..
  rw [same, fsDup_blank 0 source got (by rwa [read]) (update_self ..), read]
  simp [setFile]

theorem fsClose_eq {fp : Nat} (used : fp ≠ 0) (wired : (fs.file fp).Wired) :
    fsClose fs fp = .ok { fs with
      file := update fs.file fp { fs.file fp with vinode := 0 }
      object := release FileType.counted fs.object (fs.file fp) } := by
  rw [File.Wired] at wired
  rw [fsClose, if_neg used]
  unfold release setFile vinodeClose
  simp only [bind, Except.bind]
  generalize standing : fs.file fp = file at wired ⊢
  obtain ⟨type, vinode⟩ := file
  cases type <;> simp_all [FileType.counted]

theorem sysFsDup2_eq (inv : TableInv fs) {fdOld fdNew : Int} {alloc : Nat} (got : alloc ≠ 0) (fresh : Fresh fs alloc)
    (within : fs.lookup fdOld = 0 ∨ 0 ≤ fdNew ∧ fdNew < maxFds) :
    sysFsDup2 fs fdOld fdNew alloc = .ok (
      if fs.lookup fdOld = 0 then fs
      else if fs.lookup fdNew = 0 then
        install fs fdNew.toNat alloc (fs.file (fs.lookup fdOld)) (retain fs.object (fs.file (fs.lookup fdOld)))
      else rebind fs (fs.lookup fdNew) (fs.file (fs.lookup fdOld))) := by
  simp only [sysFsDup2, fdToFile_eq inv, bind, Except.bind]
  by_cases closed : fs.lookup fdOld = 0
  · simp [closed]
  obtain ⟨a, rfl, _, entry⟩ := lookup_entry inv closed
  have wired := inv.wired a (entry ▸ closed)
  rw [← entry] at wired
  obtain ⟨low, high⟩ := within.resolve_left closed
  obtain ⟨b, rfl⟩ := Int.eq_ofNat_of_zero_le low
  have below : b < maxFds := by omega
  rw [if_neg closed, if_neg closed]
  by_cases free : fs.lookup (b : Int) = 0
  · have apart : fs.lookup (a : Int) ≠ alloc := by
      rw [entry]
      exact fresh a (entry ▸ closed)
    rw [if_pos free, free, fsDup_alloc closed got apart wired]
    simp only [writeFilep_eq below, Int.toNat_natCast]
    rfl
  · have read := lookup_eq inv b
    have wiredNew := inv.wired b (read ▸ free)
    have inside := inv.below b (read ▸ free)
    rw [if_neg free, fsDup_open alloc closed free wired (by rwa [read])]
    simp [writeFilep_eq below, rebind, if_neg (not_le.2 inside), read]

theorem sysFsDup_spec (inv : TableInv fs) (fdOld : Int) {alloc : Nat} (got : alloc ≠ 0) (fresh : Fresh fs alloc) :
    sysFsDup fs fdOld alloc = .ok fs ∨ fs.lookup fdOld ≠ 0 ∧ ∃ i < maxFds, fs.filep i = 0 ∧
      sysFsDup fs fdOld alloc = .ok
        (install fs i alloc (fs.file (fs.lookup fdOld)) (retain fs.object (fs.file (fs.lookup fdOld)))) := by
  rcases findFree_spec fs 3 (by decide) with full | ⟨i, _, within, free, found⟩
  · left
    simp only [sysFsDup, full, bind, Except.bind]
  have placed : sysFsDup2 fs fdOld i alloc = _ := sysFsDup2_eq inv got fresh (.inr ⟨by omega, by omega⟩)
  rw [lookup_eq inv i, free, if_pos rfl, Int.toNat_natCast] at placed
  simp only [sysFsDup, found, bind, Except.bind, placed]
  by_cases closed : fs.lookup fdOld = 0
  · exact .inl (by rw [if_pos closed])
  · exact .inr ⟨closed, i, within, free, by rw [if_neg closed]⟩

theorem dupfd_stored (inv : TableInv fs) {fd : Int} {alloc : Nat} (used : fs.lookup fd ≠ 0) (got : alloc ≠ 0)
    (fresh : Fresh fs alloc) {i : Nat} (within : i < maxFds) :
    (do let stored ← store (setFile fs alloc {}) i alloc
        .ok (← fsDup stored (fs.lookup fd) alloc 0).2) =
      .ok (install fs i alloc (fs.file (fs.lookup fd)) (retain fs.object (fs.file (fs.lookup fd)))) := by
  obtain ⟨a, rfl, _, entry⟩ := lookup_entry inv used
  have wired := inv.wired a (entry ▸ used)
  have apart : fs.lookup (a : Int) ≠ alloc := by
    rw [entry]
    exact fresh a (entry ▸ used)
  rw [← entry] at wired
  rw [store_eq within]
  have read : (setFile fs alloc {}).file (fs.lookup (a : Int)) = fs.file (fs.lookup (a : Int)) :=
    update_of_ne apart ..
  simp only [bind, Except.bind]
  rw [fsDup_blank 0 used got (by rwa [read]) (update_self ..), read]
  simp only [install, setFile, update_idem]
  rfl

theorem sysFsFcntlDupfd_spec (inv : TableInv fs) {fd args : Int} {alloc : Nat} (fresh : Fresh fs alloc)
    (within : fs.lookup fd = 0 ∨ alloc = 0 ∨ 0 ≤ args) :
    sysFsFcntlDupfd fs fd args alloc = .ok fs ∨ fs.lookup fd ≠ 0 ∧ alloc ≠ 0 ∧ ∃ i < maxFds, fs.filep i = 0 ∧
      sysFsFcntlDupfd fs fd args alloc = .ok
        (install fs i alloc (fs.file (fs.lookup fd)) (retain fs.object (fs.file (fs.lookup fd)))) := by
  simp only [sysFsFcntlDupfd, fdToFile_eq inv, bind, Except.bind]
  by_cases closed : fs.lookup fd = 0
  · exact .inl (by simp [closed])
  by_cases empty : alloc = 0
  · exact .inl (by simp [empty])
  have low : 0 ≤ args := (within.resolve_left closed).resolve_left empty
  obtain ⟨start, rfl⟩ := Int.eq_ofNat_of_zero_le low
  rw [if_neg (not_or.2 ⟨closed, empty⟩)]
  by_cases direct : (start : Int) > fs.total ∧ (start : Int) < maxFds
  · -- past `total` every entry is free
    have free : fs.filep start = 0 := by
      by_contra used
      have below := inv.below start used
      omega
    have stored := dupfd_stored inv closed empty fresh (i := start) (by omega)
    simp only [bind, Except.bind] at stored
    rw [if_pos direct, stored]
    exact .inr ⟨closed, empty, start, by omega, free, rfl⟩
  · rw [if_neg direct]
    rcases findFree_spec (setFile fs alloc {}) start (by omega) with full | ⟨i, _, below, free, found⟩
    · exact .inl (by rw [full])
    · have stored := dupfd_stored inv closed empty fresh below
      rw [found]
      exact .inr ⟨closed, empty, i, below, free, stored⟩

theorem sysFsClose_spec (inv : TableInv fs) {arg : Int} (int : -2 ^ 31 ≤ arg ∧ arg < 2 ^ 31) :
    sysFsClose fs arg = .ok fs ∧ (arg = 1 ∨ fs.lookup arg = 0) ∨ ∃ i : Nat, arg = i ∧ i < maxFds ∧ fs.filep i ≠ 0 ∧
      sysFsClose fs arg = .ok (detach fs i) := by
  have natural := inv.natural
  have most : fs.total ≤ 100 := inv.most
  have total := toUlong_eq natural (by omega)
  simp only [sysFsClose, bind, Except.bind, total]
  by_cases one : toUlong arg = 1
  · have small := toUlong_small int.1 int.2 (by omega)
    exact .inl ⟨by rw [if_pos one], .inl (by omega)⟩
  rw [if_neg one]
  by_cases inside : fs.total.toNat > toUlong arg
  · -- a negative argument is far above `total` once it is unsigned
    obtain ⟨low, same⟩ := toUlong_small int.1 int.2 (by omega)
    have within : arg.toNat < maxFds := by
      have hundred : maxFds = 100 := rfl
      omega
    rw [if_pos inside, same, readFilep_eq within]
    by_cases free : fs.filep arg.toNat = 0
    · refine .inl ⟨by simp [free], .inr ?_⟩
      rw [Fs.lookup, if_pos (by omega), free]
    right
    refine ⟨arg.toNat, by omega, within, free, ?_⟩
    have wired := inv.wired arg.toNat free
    simp only [if_neg free, writeFilep_eq within]
    exact fsClose_eq free wired
  · refine .inl ⟨by rw [if_neg inside]; rfl, .inr ?_⟩
    rw [Fs.lookup, if_neg]
    rintro ⟨low, below⟩
    rw [toUlong_eq low (by omega)] at inside
    omega

theorem fsCreateFilep_given (fs : Fs) {fp : Nat} (given : fp ≠ 0) (alloc : Nat) :
    fsCreateFilep fs fp alloc = .ok (none, fs) ∨ ∃ i < maxFds, fs.filep i = 0 ∧
      fsCreateFilep fs fp alloc = .ok (some ((i : Int), fp), install fs i fp (fs.file fp) fs.object) := by
  rcases findFree_spec fs 3 (by decide) with full | ⟨i, _, within, free, found⟩
  · left
    simp [fsCreateFilep, full, bind, Except.bind]
  right
  refine ⟨i, within, free, ?_⟩
  simp only [fsCreateFilep, found, bind, Except.bind, if_pos given, store_eq within, install,
    update_eq_self]

theorem fsCreateFilep_new (fs : Fs) (alloc : Nat) :
    fsCreateFilep fs 0 alloc = .ok (none, fs) ∨ alloc ≠ 0 ∧ ∃ i < maxFds, fs.filep i = 0 ∧
      fsCreateFilep fs 0 alloc = .ok (some ((i : Int), alloc), install fs i alloc {} fs.object) := by
  rcases findFree_spec fs 3 (by decide) with full | ⟨i, _, within, free, found⟩
  · left
    simp [fsCreateFilep, full, bind, Except.bind]
  by_cases empty : alloc = 0
  · left
    simp [fsCreateFilep, found, bind, Except.bind, empty]
  right
  refine ⟨empty, i, within, free, ?_⟩
  simp only [fsCreateFilep, found, bind, Except.bind, ne_eq, not_true_eq_false, if_false, empty,
    store_eq within, setFile, install]

theorem fsDestroyFilep_eq {i : Nat} (within : i < maxFds) :
    fsDestroyFilep fs i = .ok { fs with filep := update fs.filep i 0 } := by
  simp only [fsDestroyFilep, readFilep_eq within, writeFilep_eq within, bind, Except.bind]
  rw [if_neg (by omega)]

end

def Opened.file : Opened -> File
  | .devNull => ⟨.devNull, 0⟩
  | .socket sock => ⟨.network, sock⟩
  | .foundInode inode => ⟨.regular, inode⟩
  | .newInode inode _ => ⟨.regular, inode⟩
  | .failed _ => {}

def Opened.objects (objects : Nat -> Option Object) : Opened -> Nat -> Option Object
  | .socket sock => update objects sock (some ⟨.socket, 1, 0⟩)
  | .foundInode inode => update objects inode ((objects inode).map Object.inc)
  | .newInode inode stat => update objects inode (some ⟨.inode, if stat then 2 else 1, 0⟩)
  | _ => objects

structure Spared (fs next : Fs) : Prop where
  filep : next.filep = fs.filep
  grown : fs.total ≤ next.total
  most : next.total ≤ maxFds
  file : ∀ i, fs.filep i ≠ 0 -> next.file (fs.filep i) = fs.file (fs.filep i)

variable {fs : Fs}

theorem Spared.refl (inv : TableInv fs) : Spared fs fs := ⟨rfl, le_refl _, inv.most, fun _ _ => rfl⟩

theorem fsOpen_eq (fs : Fs) (alloc : Nat) {opened : Opened} (named : opened ≠ .devNull)
    (worked : ∀ inodep, opened ≠ .failed inodep) :
    fsOpen fs alloc opened = .ok (alloc, { fs with
      file := update fs.file alloc opened.file
      object := opened.objects fs.object }) := by
  cases opened with
  | devNull => exact absurd rfl named
  | failed inodep => exact absurd rfl (worked inodep)
  | socket sock | foundInode inode => rfl
  | newInode inode stat => rfl

section

variable {filled : Fs} {alloc : Nat} {opened : Opened} (named : opened ≠ .devNull) (got : alloc ≠ 0)
  (ran : fsOpen fs alloc opened = .ok (alloc, filled))

include named got ran

theorem sysFsOpen_full (full : fsCreateFilep filled alloc 0 = .ok (none, filled)) :
    sysFsOpen fs alloc opened = fsClose filled alloc := by
  cases opened with
  | devNull => exact absurd rfl named
  | socket | foundInode | newInode | failed => simp only [sysFsOpen, ran, bind, Except.bind, if_neg got, full]

theorem sysFsOpen_stored {stored : Fs} {place : Int × Nat}
    (found : fsCreateFilep filled alloc 0 = .ok (some place, stored)) : sysFsOpen fs alloc opened = .ok stored := by
  cases opened with
  | devNull => exact absurd rfl named
  | socket | foundInode | newInode | failed => simp [sysFsOpen, ran, bind, Except.bind, if_neg got, found]

end

theorem sysFsOpen_spec (inv : TableInv fs) {alloc : Nat} {opened : Opened} (got : alloc ≠ 0)
    (fresh : Fresh fs alloc) (wired : opened.file.Wired) :
    sysFsOpen fs alloc opened = .error .bug ∧ (∃ inodep, opened = .failed inodep) ∨
      (∃ next, sysFsOpen fs alloc opened = .ok next ∧ Spared fs next ∧
        next.object = release FileType.counted (opened.objects fs.object) opened.file) ∨
      ∃ i < maxFds, fs.filep i = 0 ∧
        sysFsOpen fs alloc opened = .ok (install fs i alloc opened.file (opened.objects fs.object)) := by
  by_cases null : opened = .devNull
  · subst null
    rcases fsCreateFilep_new fs alloc with full | ⟨_, i, within, free, found⟩
    · refine .inr (.inl ⟨fs, ?_, .refl inv, rfl⟩)
      simp [sysFsOpen, full, bind, Except.bind]
    refine .inr (.inr ⟨i, within, free, ?_⟩)
    simp only [sysFsOpen, found, bind, Except.bind, setFile, install, update_idem,
      update_self]
    rfl
  by_cases worked : ∀ inodep, opened ≠ .failed inodep
  · have ran := fsOpen_eq fs alloc null worked
    set filled : Fs := { fs with
      file := update fs.file alloc opened.file
      object := opened.objects fs.object } with filling
    have read : filled.file alloc = opened.file := update_self ..
    rcases fsCreateFilep_given filled got 0 with full | ⟨i, within, free, found⟩
    · -- no entry is free: the file just opened is closed again
      have closed := fsClose_eq got (by rwa [read])
      rw [sysFsOpen_full null got ran full]
      refine .inr (.inl ⟨_, closed, ⟨rfl, le_refl _, inv.most, fun j used => ?_⟩, by rw [read]⟩)
      have apart := fresh j used
      exact (update_of_ne apart ..).trans (update_of_ne apart ..)
    · right; right
      refine ⟨i, within, free, ?_⟩
      rw [sysFsOpen_stored null got ran found, read]
      simp only [filling, install, update_idem]
  · obtain ⟨inodep, rfl⟩ := not_forall_not.1 worked
    by_cases garbage : inodep = 0
    · refine .inr (.inl ⟨fs, ?_, .refl inv, rfl⟩)
      simp [sysFsOpen, fsOpen, garbage, bind, Except.bind]
    · refine .inl ⟨?_, inodep, rfl⟩
      simp [sysFsOpen, fsOpen, garbage, bind, Except.bind]

theorem sysEpollCreate_spec (alloc epoll : Nat) :
    sysEpollCreate fs alloc epoll = .error .bug ∨ alloc ≠ 0 ∧ ∃ i < maxFds, fs.filep i = 0 ∧
      sysEpollCreate fs alloc epoll = .ok (install fs i alloc ⟨.eventPoll, epoll⟩
        (update fs.object epoll (some ⟨.epoll, 1, 0⟩))) := by
  rcases fsCreateFilep_new fs alloc with full | ⟨got, i, within, free, found⟩
  · left
    simp [sysEpollCreate, full, bind, Except.bind]
  · refine .inr ⟨got, i, within, free, ?_⟩
    simp only [sysEpollCreate, found, bind, Except.bind, setObject, setFile, install, update_idem]

theorem install_total {i : Nat} (within : i < maxFds) (most : fs.total ≤ maxFds) (fp : Nat) (file : File)
    (objects : Nat -> Option Object) :
    fs.total ≤ (install fs i fp file objects).total ∧ (install fs i fp file objects).total ≤ maxFds := by
  simp only [install]
  split_ifs <;> omega

theorem update_undo {filep : Nat -> Nat} {i : Nat} (free : filep i = 0) (fp : Nat) :
    update (update filep i fp) i 0 = filep := by
  rw [update_idem, ← free, update_eq_self]

theorem update_pair {Value : Type} (f : Nat -> Value) (w r : Nat) (a b c d : Value) :
    update (update (update (update f w a) r b) w c) r d =
      update (update f w c) r d := by
  funext k
  by_cases right : k = r
  · rw [right, update_self, update_self]
  rw [update_of_ne right, update_of_ne right]
  by_cases left : k = w
  · rw [left, update_self, update_self]
  · rw [update_of_ne left, update_of_ne right, update_of_ne left,
      update_of_ne left]

theorem sysPipe_spec (inv : TableInv fs) {wfp rfp : Nat} (wpipe rpipe : Nat) (created : Bool)
    (freshW : Fresh fs wfp) (freshR : Fresh fs rfp) :
    (∃ next, sysPipe fs wfp rfp wpipe rpipe created = .ok next ∧ Spared fs next ∧ next.object = fs.object) ∨
      ∃ i < maxFds, ∃ j < maxFds, i ≠ j ∧ fs.filep i = 0 ∧ fs.filep j = 0 ∧ wfp ≠ 0 ∧ rfp ≠ 0 ∧
        sysPipe fs wfp rfp wpipe rpipe created = .ok
          (installPipe fs i wfp wpipe j rfp rpipe) := by
  rcases fsCreateFilep_new fs wfp with full | ⟨gotW, i, withinW, freeW, foundW⟩
  · refine .inl ⟨fs, ?_, .refl inv, rfl⟩
    simp [sysPipe, full, bind, Except.bind]
  have totalsW := install_total withinW inv.most wfp {} fs.object
  rcases fsCreateFilep_new (install fs i wfp {} fs.object) rfp with full | ⟨gotR, j, withinR, taken, foundR⟩
  · left
    simp only [sysPipe, foundW, full, bind, Except.bind, fsDestroyFilep_eq withinW]
    exact ⟨_, rfl, ⟨update_undo freeW wfp, totalsW.1, totalsW.2, fun k used => update_of_ne (freshW k used) ..⟩,
      rfl⟩
  have other : i ≠ j := by
    rintro rfl
    exact gotW ((update_self ..).symm.trans taken)
  have freeR : fs.filep j = 0 := (update_of_ne other.symm ..).symm.trans taken
  simp only [sysPipe, foundW, foundR, bind, Except.bind]
  cases created with
  | true =>
    refine .inr ⟨i, withinW, j, withinR, other, freeW, freeR, gotW, gotR, ?_⟩
    simp only [if_true, setObject, setFile, install, update_pair]
    rfl
  | false =>
    left
    have totalsR := install_total withinR totalsW.2 rfp {} fs.object
    simp only [Bool.false_eq_true, if_false, fsDestroyFilep_eq withinR, fsDestroyFilep_eq withinW]
    refine ⟨_, rfl, ⟨?_, totalsW.1.trans totalsR.1, totalsR.2, fun k used => ?_⟩, rfl⟩
    · exact (congrArg (update · i 0) (update_undo taken rfp)).trans (update_undo freeW wfp)
    · have apartW := freshW k used
      have apartR := freshR k used
      simp [setFile, install, apartW, apartR]

end JinyKernel.Files
