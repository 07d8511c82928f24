import JinyKernel.Files.Lifetimes

namespace JinyKernel.Files

open Census Function Option

variable (objects : Nat -> Option Object)

def File.Suits (file : File) : Prop :=
  ∀ addr object, file.target = some addr -> objects addr = some object ->
    (object.kind = .epoll ↔ file.type = .eventPoll)

def Typed (fs : Fs) : Prop := ∀ i, fs.filep i ≠ 0 -> (fs.file (fs.filep i)).Suits fs.object

def KeepsKinds (before after : Nat -> Option Object) : Prop :=
  ∀ addr object later, before addr = some object -> after addr = some later -> later.kind = object.kind

def Descends (before after : Nat -> Option Object) : Prop :=
  ∀ addr later, after addr = some later -> ∃ object, before addr = some object ∧ later.kind = object.kind

section

variable {before middle after : Nat -> Option Object}

theorem KeepsKinds.refl : KeepsKinds objects objects := by
  intro addr object later here there
  rw [here] at there
  cases there
  rfl

theorem KeepsKinds.descends (first : KeepsKinds before middle) (second : Descends middle after) :
    KeepsKinds before after := by
  intro addr object later here there
  obtain ⟨between, present, kind⟩ := second addr later there
  rw [kind]
  exact first addr object between here present

theorem KeepsKinds.create {addr : Nat} (new : before addr = none) (object : Object) :
    KeepsKinds before (update before addr (some object)) := by
  intro other old later here there
  have apart : other ≠ addr := by
    rintro rfl
    rw [new] at here
    cases here
  rw [update_of_ne apart] at there
  exact KeepsKinds.refl before other old later here there

theorem Descends.update {change : Object -> Option Object}
    (same : ∀ object later, change object = some later -> later.kind = object.kind) (addr : Nat) :
    Descends before (update before addr ((before addr).bind change)) := by
  intro other later there
  by_cases here : other = addr
  · subst here
    rw [update_self] at there
    obtain ⟨object, present, changed⟩ := Run.bind_iff.1 there
    exact ⟨object, present, same object later changed⟩
  · rw [update_of_ne here] at there
    exact ⟨later, there, rfl⟩

theorem Descends.refl : Descends objects objects :=
  fun _ later there => ⟨later, there, rfl⟩

theorem Object.close_kind {object later : Object} (closed : object.close = some later) : later.kind = object.kind := by
  simp only [Object.close] at closed
  split_ifs at closed
  · cases closed
    rfl

theorem release_descends (closes : FileType -> Bool) (objects : Nat -> Option Object) (file : File) :
    Descends objects (release closes objects file) := by
  rw [release]
  split
  · exact .update (fun _ _ => Object.close_kind) _
  · exact .refl objects

theorem inc_descends (addr : Nat) : Descends objects (update objects addr ((objects addr).map Object.inc)) := by
  rw [map_eq_bind]
  apply Descends.update
  intro object later changed
  cases changed
  rfl

theorem retain_descends (file : File) : Descends objects (retain objects file) := by
  rw [retain]
  split
  · exact inc_descends objects file.vinode
  · exact .refl objects

theorem Opened.Sound.keeps {fs : Fs} {opened : Opened} (sound : opened.Sound fs) :
    KeepsKinds fs.object (opened.objects fs.object) := by
  cases opened with
  | devNull | failed => exact .refl fs.object
  | socket sock | newInode inode stat => exact .create sound.2 _
  | foundInode inode => exact (KeepsKinds.refl fs.object).descends (inc_descends fs.object inode)

theorem Opened.Sound.suits {fs : Fs} {opened : Opened} (sound : opened.Sound fs) :
    opened.file.Suits (opened.objects fs.object) := by
  intro addr object target present
  cases opened with
  | devNull | failed => cases target
  | socket sock | newInode inode stat =>
    cases target
    cases (update_self ..).symm.trans present
    simp [Opened.file]
  | foundInode inode =>
    obtain ⟨_, found, there, kind⟩ := sound
    cases target
    obtain ⟨old, here, same⟩ := inc_descends fs.object inode inode object present
    rw [there] at here
    cases here
    simp [Opened.file, same, kind]

end

-- The call closes or rebinds this descriptor; `SYS_fs_close` does nothing for 1.
def Event.Drops (fs : Fs) (i : Nat) : Event -> Prop
  | .dup2 fdOld fdNew _ => fdNew = i ∧ fs.lookup fdOld ≠ 0 ∧ fdOld ≠ fdNew
  | .close arg => arg = i ∧ arg ≠ 1
  | _ => False

variable {event : Event} {i j : Nat}

theorem Event.Drops.unique {fs : Fs} (first : event.Drops fs i) (second : event.Drops fs j) : i = j := by
  cases event with
  | dup2 | close => exact Int.ofNat.inj (first.1.symm.trans second.1)
  | openFile | pipe | epollCreate | dup | fcntlDupfd | pages => exact first.elim

structure Carried (dropped : Nat -> Prop) (fs next : Fs) : Prop where
  kept : ∀ i, fs.filep i ≠ 0 -> ¬ dropped i ->
    next.filep i ≠ 0 ∧ next.file (next.filep i) = fs.file (fs.filep i)
  kinds : KeepsKinds fs.object next.object
  typed : Typed next

section

variable {fs next : Fs} {dropped : Nat -> Prop}

theorem Typed.suits (typed : Typed fs) (counted : Counted fs) {objects : Nat -> Option Object}
    (kinds : KeepsKinds fs.object objects) (used : fs.filep i ≠ 0) : (fs.file (fs.filep i)).Suits objects := by
  intro addr later target there
  have below := counted.table.below i used
  have most := counted.table.most
  have within : i < maxFds := by omega
  have alive := target_alive counted within ((refers_used used).trans target)
  obtain ⟨object, present⟩ := ne_none_iff_exists'.1 alive
  rw [kinds addr object later present there]
  exact typed i used addr object target present

theorem Carried.spared (spared : Spared fs next) (kinds : KeepsKinds fs.object next.object)
    (old : ∀ i, fs.filep i ≠ 0 -> (fs.file (fs.filep i)).Suits next.object) : Carried dropped fs next where
  kept i used _ := by
    rw [spared.filep]
    exact ⟨used, spared.file i used⟩
  kinds := kinds
  typed i used := by
    rw [spared.filep] at used ⊢
    rw [spared.file i used]
    exact old i used

theorem Carried.install {fp : Nat} (free : fs.filep i = 0) (fresh : Fresh fs fp) {file : File}
    {objects : Nat -> Option Object} (kinds : KeepsKinds fs.object objects)
    (old : ∀ i, fs.filep i ≠ 0 -> (fs.file (fs.filep i)).Suits objects) (new : file.Suits objects) :
    Carried dropped fs (install fs i fp file objects) := by
  have entry : ∀ j, fs.filep j ≠ 0 -> (Files.install fs i fp file objects).filep j = fs.filep j ∧
      (Files.install fs i fp file objects).file (fs.filep j) = fs.file (fs.filep j) := by
    intro j used
    have apart : j ≠ i := fun same => used (same ▸ free)
    exact ⟨update_of_ne apart .., update_of_ne (fresh j used) ..⟩
  constructor
  case kept =>
    intro j used _
    obtain ⟨filep, read⟩ := entry j used
    rw [filep]
    exact ⟨used, read⟩
  case kinds => exact kinds
  case typed =>
    intro j used
    by_cases here : j = i
    · have filep : (Files.install fs i fp file objects).filep j = fp := by
        rw [here]
        exact update_self ..
      have filled : (Files.install fs i fp file objects).file fp = file := update_self ..
      rw [filep, filled]
      exact new
    · have same : (Files.install fs i fp file objects).filep j = fs.filep j := update_of_ne here ..
      rw [same] at used
      obtain ⟨filep, read⟩ := entry j used
      rw [filep, read]
      exact old j used

theorem Carried.shared (typed : Typed fs) (counted : Counted fs) (kinds : KeepsKinds fs.object next.object)
    (kept : ∀ i, fs.filep i ≠ 0 -> ¬ dropped i ->
      next.filep i ≠ 0 ∧ next.file (next.filep i) = fs.file (fs.filep i))
    (source : ∀ i, next.filep i ≠ 0 -> ∃ a, fs.filep a ≠ 0 ∧ next.file (next.filep i) = fs.file (fs.filep a)) :
    Carried dropped fs next where
  kept := kept
  kinds := kinds
  typed i used := by
    obtain ⟨a, openA, same⟩ := source i used
    rw [same]
    exact typed.suits counted kinds openA

theorem Carried.rebind (typed : Typed fs) (counted : Counted fs) {a b : Nat} (openA : fs.filep a ≠ 0)
    (openB : fs.filep b ≠ 0) (drops : a ≠ b -> dropped b) :
    Carried dropped fs (rebind fs (fs.filep b) (fs.file (fs.filep a))) := by
  set next := Files.rebind fs (fs.filep b) (fs.file (fs.filep a))
  have there : next.file (fs.filep b) = fs.file (fs.filep a) := update_self ..
  have elsewhere : ∀ j, fs.filep j ≠ 0 -> j ≠ b -> next.file (fs.filep j) = fs.file (fs.filep j) := by
    intro j used apart
    exact update_of_ne (fun same => apart (counted.table.distinct j b used same)) ..
  refine .shared typed counted ?_ (fun j used spared => ?_) fun j used => ?_
  · exact ((KeepsKinds.refl fs.object).descends (release_descends _ _ _)).descends (retain_descends _ _)
  · refine ⟨used, ?_⟩
    by_cases here : j = b
    · -- only a descriptor copied onto itself is spared here
      have same : a = b := by
        by_contra apart
        exact spared (here ▸ drops apart)
      subst here same
      exact there
    · exact elsewhere j used here
  · by_cases here : j = b
    · subst here
      exact ⟨a, openA, there⟩
    · exact ⟨j, used, elsewhere j used here⟩

theorem Carried.detach (typed : Typed fs) (counted : Counted fs) (drops : dropped i) :
    Carried dropped fs (detach fs i) := by
  have elsewhere : ∀ j, fs.filep j ≠ 0 -> j ≠ i -> (Files.detach fs i).filep j = fs.filep j ∧
      (Files.detach fs i).file (fs.filep j) = fs.file (fs.filep j) := by
    intro j used apart
    exact ⟨update_of_ne apart ..,
      update_of_ne (fun same => apart (counted.table.distinct j i used same)) ..⟩
  refine .shared typed counted ((KeepsKinds.refl fs.object).descends (release_descends _ _ _)) (fun j used spared => ?_)
    fun j used => ?_
  · have apart : j ≠ i := fun same => spared (same ▸ drops)
    obtain ⟨filep, file⟩ := elsewhere j used apart
    rw [filep]
    exact ⟨used, file⟩
  have apart : j ≠ i := by
    rintro rfl
    exact used (update_self ..)
  have same : (Files.detach fs i).filep j = fs.filep j := update_of_ne apart ..
  rw [same] at used ⊢
  exact ⟨j, used, (elsewhere j used apart).2⟩

end

variable {fs next : Fs}

theorem piped_carried {wfp rfp wpipe rpipe : Nat} {dropped : Nat -> Prop} (counted : Counted fs) (typed : Typed fs)
    (apart : i ≠ j) (freeW : fs.filep i = 0) (freeR : fs.filep j = 0) (freshW : Fresh fs wfp) (freshR : Fresh fs rfp)
    (files : wfp ≠ rfp) (ends : wpipe ≠ rpipe) (newW : fs.object wpipe = none) (newR : fs.object rpipe = none) :
    Carried dropped fs (installPipe fs i wfp wpipe j rfp rpipe) := by
  set objects := update (update fs.object wpipe (some ⟨.pipe, 1, 0⟩)) rpipe (some ⟨.pipe, 1, 0⟩)
    with made
  have kinds : KeepsKinds fs.object objects := by
    intro addr object later here there
    have otherW : addr ≠ wpipe := fun same => by simp [same, newW] at here
    have otherR : addr ≠ rpipe := fun same => by simp [same, newR] at here
    rw [made, update_of_ne otherR, update_of_ne otherW] at there
    exact KeepsKinds.refl _ addr object later here there
  have pipes : ∀ addr object, addr = wpipe ∨ addr = rpipe -> objects addr = some object -> object.kind = .pipe := by
    intro addr object here there
    rcases here with rfl | rfl
    · rw [made, update_of_ne ends, update_self] at there
      cases there
      rfl
    · rw [made, update_self] at there
      cases there
      rfl
  -- the objects of the second entry are there already
  have first : Carried dropped fs (install fs i wfp ⟨.outPipe, wpipe⟩ objects) := by
    refine .install freeW freshW kinds (fun k => typed.suits counted kinds) fun addr object target there => ?_
    cases target
    simp [pipes _ object (.inl rfl) there]
  have second : Carried dropped (install fs i wfp ⟨.outPipe, wpipe⟩ objects)
      (install (install fs i wfp ⟨.outPipe, wpipe⟩ objects) j rfp ⟨.inPipe, rpipe⟩ objects) := by
    refine .install ((update_of_ne apart.symm ..).trans freeR) (freshR.install files) (.refl objects)
      (first.typed) fun addr object target there => ?_
    cases target
    simp [pipes _ object (.inr rfl) there]
  refine ⟨fun k used spared => ?_, kinds, second.typed⟩
  obtain ⟨still, file⟩ := first.kept k used spared
  obtain ⟨later, same⟩ := second.kept k still spared
  exact ⟨later, same.trans file⟩

theorem Change.carried (change : Change fs event next) (counted : Counted fs) (typed : Typed fs) :
    Carried (fun i => event.Drops fs i) fs next := by
  cases change with
  | spared spared same =>
    have kinds : KeepsKinds fs.object next.object := same ▸ .refl fs.object
    exact .spared spared kinds fun i => typed.suits counted kinds
  | reclosed sound spared closed =>
    have kinds : KeepsKinds fs.object next.object := closed ▸ sound.keeps.descends (release_descends _ _ _)
    exact .spared spared kinds fun i => typed.suits counted kinds
  | opened _ fresh sound _ free =>
    exact .install free fresh sound.keeps (fun i used => typed.suits counted sound.keeps used) sound.suits
  | piped may _ _ entries freeW freeR gotW =>
    obtain ⟨freshW, freshR, apart, _, _, ends, newW, newR⟩ := may
    exact piped_carried counted typed entries freeW freeR freshW freshR (apart.resolve_left gotW) ends newW newR
  | polled _ may _ free =>
    have kinds := KeepsKinds.create may.2.2 ⟨.epoll, 1, 0⟩
    refine .install free may.1 kinds (fun j => typed.suits counted kinds) fun addr object target there => ?_
    cases target
    cases (update_self ..).symm.trans there
    simp
  | @copied _ fd _ _ _ fresh _ free used =>
    obtain ⟨a, rfl, _, entry⟩ := lookup_entry counted.table used
    have kinds := (KeepsKinds.refl fs.object).descends (retain_descends fs.object (fs.file (fs.filep a)))
    rw [entry] at used ⊢
    exact .install free fresh kinds (fun j => typed.suits counted kinds) (typed.suits counted kinds used)
  | @rebound a b _ _ _ openA openB =>
    refine .rebind typed counted openA openB fun apart => ⟨rfl, ?_, fun same => apart (Int.ofNat.inj same)⟩
    rwa [lookup_eq counted.table a]
  | detached _ _ real => exact .detach typed counted ⟨rfl, mod_cast real⟩
  | @paged inode nrpages =>
    have kinds : KeepsKinds fs.object
        (update fs.object inode ((fs.object inode).map fun object => { object with nrpages := nrpages })) := by
      rw [map_eq_bind]
      refine (KeepsKinds.refl fs.object).descends (.update (fun object later changed => ?_) inode)
      cases changed
      rfl
    exact ⟨fun _ used _ => ⟨used, rfl⟩, kinds, fun i => typed.suits counted kinds⟩

end JinyKernel.Files
