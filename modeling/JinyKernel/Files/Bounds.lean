import JinyKernel.Shared.Run
import JinyKernel.Files.Effects

namespace JinyKernel.Files

open Function

inductive Event where
  | openFile (alloc : Nat) (opened : Opened)
  | pipe (wfp rfp wpipe rpipe : Nat) (created : Bool)
  | epollCreate (alloc epoll : Nat)
  | dup (fdOld : Int) (alloc : Nat)
  | dup2 (fdOld fdNew : Int) (alloc : Nat)
  | fcntlDupfd (fd args : Int) (alloc : Nat)
  | close (arg : Int)
  | pages (inode nrpages : Nat)

variable (fs : Fs)

def exec : Event -> Except Stop Fs
  | .openFile alloc opened => sysFsOpen fs alloc opened
  | .pipe wfp rfp wpipe rpipe created => sysPipe fs wfp rfp wpipe rpipe created
  | .epollCreate alloc epoll => sysEpollCreate fs alloc epoll
  | .dup fdOld alloc => sysFsDup fs fdOld alloc
  | .dup2 fdOld fdNew alloc => sysFsDup2 fs fdOld fdNew alloc
  | .fcntlDupfd fd args alloc => sysFsFcntlDupfd fs fd args alloc
  | .close arg => sysFsClose fs arg
  | .pages inode nrpages => .ok { fs with
      object := update fs.object inode ((fs.object inode).map fun object => { object with nrpages := nrpages }) }

def step (event : Event) : Option Fs := (exec fs event).toOption

def Opened.Sound : Opened -> Prop
  | .devNull => True
  | .socket sock => sock ≠ 0 ∧ fs.object sock = none
  | .foundInode inode => inode ≠ 0 ∧ ∃ object, fs.object inode = some object ∧ object.kind = .inode
  | .newInode inode _ => inode ≠ 0 ∧ fs.object inode = none
  | .failed _ => True

def Allowed : Event -> Prop
  | .openFile alloc opened => alloc ≠ 0 ∧ Fresh fs alloc ∧ opened.Sound fs
  | .pipe wfp rfp wpipe rpipe _ => Fresh fs wfp ∧ Fresh fs rfp ∧ (wfp = 0 ∨ wfp ≠ rfp) ∧
      wpipe ≠ 0 ∧ rpipe ≠ 0 ∧ wpipe ≠ rpipe ∧ fs.object wpipe = none ∧ fs.object rpipe = none
  | .epollCreate alloc epoll => Fresh fs alloc ∧ epoll ≠ 0 ∧ fs.object epoll = none
  | .dup _ alloc => alloc ≠ 0 ∧ Fresh fs alloc
  | .dup2 _ _ alloc => alloc ≠ 0 ∧ Fresh fs alloc
  | .fcntlDupfd _ _ alloc => Fresh fs alloc
  | .close arg => -2 ^ 31 ≤ arg ∧ arg < 2 ^ 31
  | .pages inode _ => ∃ object, fs.object inode = some object ∧ object.kind = .inode

def InRange : Event -> Prop
  | .dup2 fdOld fdNew _ => fs.lookup fdOld = 0 ∨ 0 ≤ fdNew ∧ fdNew < maxFds
  | .fcntlDupfd fd args alloc => fs.lookup fd = 0 ∨ alloc = 0 ∨ 0 ≤ args
  | _ => True

def Event.Targets (i : Nat) : Event -> Prop
  | .dup2 _ fdNew _ => fdNew = i
  | .close arg => arg = i
  | _ => False

namespace TableInv

variable {fs next : Fs}

-- What is used afterwards was there before, but for one fresh entry.
theorem renew (inv : TableInv fs) (grown : fs.total ≤ next.total) (most : next.total ≤ maxFds) (i : Nat)
    (entry : ∀ j, next.filep j ≠ 0 ->
      next.filep j = fs.filep j ∨ j = i ∧ Fresh fs (next.filep j) ∧ (j : Int) < next.total)
    (wired : ∀ j, next.filep j ≠ 0 -> (next.file (next.filep j)).Wired) : TableInv next where
  natural := inv.natural.trans grown
  most := most
  below j used := by
    rcases entry j used with old | ⟨-, -, inside⟩
    · exact (inv.below j (old ▸ used)).trans_le grown
    · exact inside
  distinct j k used same := by
    rcases entry j used with oldJ | ⟨newJ, freshJ, -⟩ <;> rcases entry k (same ▸ used) with oldK | ⟨newK, freshK, -⟩
    · exact inv.distinct j k (oldJ ▸ used) (oldJ.symm.trans (same.trans oldK))
    · exact absurd (oldJ.symm.trans same) (freshK j (oldJ ▸ used))
    · exact absurd (oldK.symm.trans same.symm) (freshJ k (oldK ▸ same ▸ used))
    · exact newJ.trans newK.symm
  wired := wired

theorem spared (inv : TableInv fs) (spared : Spared fs next) : TableInv next := by
  refine inv.renew spared.grown spared.most 0 (fun j _ => .inl (congrFun spared.filep j)) fun j used => ?_
  rw [spared.filep] at used ⊢
  rw [spared.file j used]
  exact inv.wired j used

theorem install (inv : TableInv fs) {i fp : Nat} {file : File} (within : i < maxFds)
    (fresh : Fresh fs fp) (wired : file.Wired) (objects : Nat -> Option Object) :
    TableInv (install fs i fp file objects) := by
  obtain ⟨grown, most⟩ := install_total within inv.most fp file objects
  have kept (j : Nat) (other : j ≠ i) : (Files.install fs i fp file objects).filep j = fs.filep j := update_of_ne other ..
  have new : (Files.install fs i fp file objects).filep i = fp := update_self ..
  refine inv.renew grown most i (fun j used => ?_) fun j used => ?_
  · by_cases here : j = i
    · subst here
      refine .inr ⟨rfl, new.symm ▸ fresh, ?_⟩
      simp only [Files.install]
      split_ifs <;> omega
    · exact .inl (kept j here)
  · by_cases here : j = i
    · have filled : (Files.install fs i fp file objects).file fp = file := update_self ..
      rwa [here, new, filled]
    · rw [kept j here] at used ⊢
      have same : (Files.install fs i fp file objects).file (fs.filep j) = fs.file (fs.filep j) :=
        update_of_ne (fresh j used) ..
      rw [same]
      exact inv.wired j used

theorem rebind (inv : TableInv fs) {i : Nat} {file : File} (wired : file.Wired) :
    TableInv (rebind fs (fs.filep i) file) := by
  refine inv.renew le_rfl inv.most i (fun _ _ => .inl rfl) fun j used => ?_
  change (update fs.file (fs.filep i) file (fs.filep j)).Wired
  by_cases same : fs.filep j = fs.filep i
  · rwa [same, update_self]
  · rw [update_of_ne same]
    exact inv.wired j used

theorem detach (inv : TableInv fs) (i : Nat) : TableInv (detach fs i) := by
  have other (j : Nat) (used : (Files.detach fs i).filep j ≠ 0) : j ≠ i := by
    rintro rfl
    exact used (update_self ..)
  have same (j : Nat) (used : (Files.detach fs i).filep j ≠ 0) : (Files.detach fs i).filep j = fs.filep j :=
    update_of_ne (other j used) ..
  refine inv.renew le_rfl inv.most i (fun j used => .inl (same j used)) fun j used => ?_
  have old : fs.filep j ≠ 0 := same j used ▸ used
  have apart : fs.filep j ≠ fs.filep i := fun both => other j used (inv.distinct j i old both)
  have kept : (Files.detach fs i).file (fs.filep j) = fs.file (fs.filep j) := update_of_ne apart ..
  rw [same j used, kept]
  exact inv.wired j old

end TableInv

theorem Opened.Sound.wired {fs : Fs} {opened : Opened} (sound : opened.Sound fs) : opened.file.Wired := by
  intro counted
  cases opened with
  | devNull | failed => cases counted
  | socket | foundInode | newInode => exact sound.1

theorem Fresh.install {fs : Fs} {i fp alloc : Nat} {file : File} {objects : Nat -> Option Object} (fresh : Fresh fs alloc)
    (apart : fp ≠ alloc) : Fresh (install fs i fp file objects) alloc := by
  intro k used
  simp only [Files.install] at used ⊢
  by_cases here : k = i
  · rw [here, update_self]
    exact apart
  · rw [update_of_ne here] at used ⊢
    exact fresh k used

inductive Change (fs : Fs) : Event -> Fs -> Prop
  | spared {event : Event} {next : Fs} (spared : Spared fs next) (same : next.object = fs.object) : Change fs event next
  | reclosed {alloc : Nat} {opened : Opened} {next : Fs} (sound : opened.Sound fs) (spared : Spared fs next)
      (closed : next.object = release FileType.counted (opened.objects fs.object) opened.file) :
      Change fs (.openFile alloc opened) next
  | opened {alloc i : Nat} {opened : Opened} (got : alloc ≠ 0) (fresh : Fresh fs alloc) (sound : opened.Sound fs)
      (within : i < maxFds) (free : fs.filep i = 0) :
      Change fs (.openFile alloc opened) (install fs i alloc opened.file (opened.objects fs.object))
  | piped {wfp rfp wpipe rpipe i j : Nat} {created : Bool} (may : Allowed fs (.pipe wfp rfp wpipe rpipe created))
      (withinW : i < maxFds) (withinR : j < maxFds) (apart : i ≠ j) (freeW : fs.filep i = 0) (freeR : fs.filep j = 0)
      (gotW : wfp ≠ 0) (gotR : rfp ≠ 0) : Change fs (.pipe wfp rfp wpipe rpipe created)
        (installPipe fs i wfp wpipe j rfp rpipe)
  | polled {alloc epoll i : Nat} (got : alloc ≠ 0) (may : Allowed fs (.epollCreate alloc epoll)) (within : i < maxFds)
      (free : fs.filep i = 0) : Change fs (.epollCreate alloc epoll) (install fs i alloc ⟨.eventPoll, epoll⟩
        (update fs.object epoll (some ⟨.epoll, 1, 0⟩)))
  | copied {event : Event} {fd : Int} {alloc i : Nat} (got : alloc ≠ 0) (fresh : Fresh fs alloc) (within : i < maxFds)
      (free : fs.filep i = 0) (used : fs.lookup fd ≠ 0) : Change fs event
        (install fs i alloc (fs.file (fs.lookup fd)) (retain fs.object (fs.file (fs.lookup fd))))
  | rebound {a b alloc : Nat} (withinA : a < maxFds) (withinB : b < maxFds) (openA : fs.filep a ≠ 0)
      (openB : fs.filep b ≠ 0) : Change fs (.dup2 a b alloc) (rebind fs (fs.filep b) (fs.file (fs.filep a)))
  | detached {i : Nat} (within : i < maxFds) (used : fs.filep i ≠ 0) (real : i ≠ 1) : Change fs (.close i) (detach fs i)
  | paged {inode nrpages : Nat} (may : Allowed fs (.pages inode nrpages)) : Change fs (.pages inode nrpages) { fs with
      object := update fs.object inode ((fs.object inode).map fun object => { object with nrpages := nrpages }) }

section

variable {fs next : Fs} {event : Event}

theorem step_iff : step fs event = some next ↔ exec fs event = .ok next := by
  rw [step]
  cases exec fs event <;> simp [Except.toOption]

theorem exec_cases (inv : TableInv fs) (may : Allowed fs event) (range : InRange fs event) :
    (exec fs event = .error .bug ∧ ∃ alloc, (∃ inodep, event = .openFile alloc (.failed inodep)) ∨
        ∃ epoll, event = .epollCreate alloc epoll) ∨
      ∃ next, exec fs event = .ok next ∧ Change fs event next := by
  have failed : exec fs event = .ok fs -> ∃ next, exec fs event = .ok next ∧ Change fs event next :=
    fun same => ⟨fs, same, .spared (.refl inv) rfl⟩
  cases event with
  | openFile alloc opened =>
    obtain ⟨got, fresh, sound⟩ := may
    rcases sysFsOpen_spec inv got fresh sound.wired with ⟨bug, inodep, rfl⟩ |
      ⟨next, ran, spared, closed⟩ | ⟨i, within, free, ran⟩
    · exact .inl ⟨bug, alloc, .inl ⟨inodep, rfl⟩⟩
    · exact .inr ⟨next, ran, .reclosed sound spared closed⟩
    · exact .inr ⟨_, ran, .opened got fresh sound within free⟩
  | pipe wfp rfp wpipe rpipe created =>
    rcases sysPipe_spec inv wpipe rpipe created may.1 may.2.1 with
      ⟨next, ran, spared, same⟩ | ⟨i, withinW, j, withinR, apart, freeW, freeR, gotW, gotR, ran⟩
    · exact .inr ⟨next, ran, .spared spared same⟩
    · exact .inr ⟨_, ran, .piped may withinW withinR apart freeW freeR gotW gotR⟩
  | epollCreate alloc epoll =>
    rcases sysEpollCreate_spec alloc epoll with bug | ⟨got, i, within, free, ran⟩
    · exact .inl ⟨bug, alloc, .inr ⟨epoll, rfl⟩⟩
    · exact .inr ⟨_, ran, .polled got may within free⟩
  | dup fdOld alloc =>
    rcases sysFsDup_spec inv fdOld may.1 may.2 with same | ⟨used, i, within, free, ran⟩
    · exact .inr (failed same)
    · exact .inr ⟨_, ran, .copied may.1 may.2 within free used⟩
  | dup2 fdOld fdNew alloc =>
    have ran := sysFsDup2_eq inv may.1 may.2 range
    right
    by_cases closed : fs.lookup fdOld = 0
    · rw [if_pos closed] at ran
      exact failed ran
    obtain ⟨low, high⟩ := range.resolve_left closed
    obtain ⟨b, rfl⟩ := Int.eq_ofNat_of_zero_le low
    rw [if_neg closed, lookup_eq inv b, Int.toNat_natCast] at ran
    by_cases free : fs.filep b = 0
    · rw [if_pos free] at ran
      exact ⟨_, ran, .copied may.1 may.2 (by omega) free closed⟩
    · obtain ⟨a, rfl, within, entry⟩ := lookup_entry inv closed
      rw [if_neg free, entry] at ran
      exact ⟨_, ran, .rebound within (by omega) (entry ▸ closed) free⟩
  | fcntlDupfd fd args alloc =>
    rcases sysFsFcntlDupfd_spec inv may range with same | ⟨used, got, i, within, free, ran⟩
    · exact .inr (failed same)
    · exact .inr ⟨_, ran, .copied got may within free used⟩
  | close arg =>
    right
    by_cases one : arg = 1
    · subst one
      exact failed rfl
    · rcases sysFsClose_spec inv may with ⟨same, _⟩ | ⟨i, rfl, within, used, ran⟩
      · exact failed same
      · exact ⟨_, ran, .detached within used (by omega)⟩
  | pages inode nrpages => exact .inr ⟨_, rfl, .paged may⟩

theorem Change.table (change : Change fs event next) (inv : TableInv fs) :
    TableInv next ∧ ∀ i, fs.filep i ≠ 0 -> ¬ event.Targets i -> next.filep i = fs.filep i := by
  have install : ∀ {i fp : Nat} {file : File} {objects : Nat -> Option Object}, i < maxFds -> fs.filep i = 0 ->
      Fresh fs fp -> file.Wired -> TableInv (install fs i fp file objects) ∧
        ∀ j, fs.filep j ≠ 0 -> ¬ event.Targets j -> (install fs i fp file objects).filep j = fs.filep j := by
    intro i fp file objects within free fresh wired
    refine ⟨inv.install within fresh wired objects, fun j used _ => ?_⟩
    have other : j ≠ i := fun same => used (same ▸ free)
    exact update_of_ne other ..
  cases change with
  | spared spared | reclosed _ spared => exact ⟨inv.spared spared, fun i _ _ => by rw [spared.filep]⟩
  | opened _ fresh sound within free => exact install within free fresh sound.wired
  | @piped wfp rfp wpipe rpipe i j _ may withinW withinR _ freeW freeR gotW =>
    obtain ⟨freshW, freshR, apart, realW, realR, _⟩ := may
    have wiredW : File.Wired ⟨.outPipe, wpipe⟩ := fun _ => realW
    have invW := inv.install withinW freshW wiredW fs.object
    have files := apart.resolve_left gotW
    refine ⟨invW.install withinR (freshR.install files) (fun _ => realR) _, fun k used _ => ?_⟩
    have apartR : k ≠ j := fun same => used (same ▸ freeR)
    have apartW : k ≠ i := fun same => used (same ▸ freeW)
    exact (update_of_ne apartR ..).trans (update_of_ne apartW ..)
  | polled _ may within free => exact install within free may.1 fun _ => may.2.1
  | copied _ fresh within free used =>
    obtain ⟨i, rfl, _, entry⟩ := lookup_entry inv used
    refine install within free fresh ?_
    rw [entry]
    exact inv.wired i (entry ▸ used)
  | rebound _ _ openA => exact ⟨inv.rebind (inv.wired _ openA), fun _ _ _ => rfl⟩
  | @detached i =>
    refine ⟨inv.detach i, fun j _ spared => update_of_ne ?_ ..⟩
    rintro rfl
    exact spared rfl
  | paged => exact ⟨{ inv with }, fun _ _ _ => rfl⟩

theorem exec_change (inv : TableInv fs) (may : Allowed fs event) (range : InRange fs event)
    (ran : exec fs event = .ok next) : Change fs event next := by
  rcases exec_cases inv may range with ⟨bug, _⟩ | ⟨other, same, change⟩
  · cases bug.symm.trans ran
  · cases same.symm.trans ran
    exact change

end

theorem exec_escapes {fs : Fs} (inv : TableInv fs) {event : Event} (may : Allowed fs event)
    (outside : ¬ InRange fs event) : ∃ index, exec fs event = .error (.outOfRange index) := by
  have natural := inv.natural
  have most := inv.most
  cases event with
  | dup2 fdOld fdNew alloc =>
    obtain ⟨got, fresh⟩ := may
    obtain ⟨used, beyond⟩ := not_or.1 outside
    obtain ⟨a, rfl, _, entry⟩ := lookup_entry inv used
    have wired := inv.wired a (entry ▸ used)
    have apart := fresh a (entry ▸ used)
    have free : fs.lookup fdNew = 0 := by
      rw [Fs.lookup, if_neg]
      omega
    rw [← entry] at wired apart
    refine ⟨fdNew, ?_⟩
    simp only [exec, sysFsDup2, fdToFile_eq inv, bind, Except.bind, free, if_neg used,
      fsDup_alloc used got apart wired, writeFilep, if_neg beyond]
  | fcntlDupfd fd args alloc =>
    obtain ⟨used, rest⟩ := not_or.1 outside
    obtain ⟨got, negative⟩ := not_or.1 rest
    obtain ⟨rounds, counted⟩ : ∃ rounds, (maxFds - args).toNat = rounds + 1 :=
      ⟨(maxFds - args).toNat - 1, by omega⟩
    refine ⟨args, ?_⟩
    have direct : ¬ (args > fs.total ∧ args < maxFds) := by omega
    have below : ¬ (0 ≤ args ∧ args < maxFds) := by omega
    simp only [exec, sysFsFcntlDupfd, fdToFile_eq inv, bind, Except.bind, if_neg (not_or.2 ⟨used, got⟩),
      if_neg direct, findFree, counted, freeLoop, readFilep, if_neg below]
  | openFile | pipe | epollCreate | dup | close | pages => exact absurd trivial outside

theorem descriptor_table_bounds_iff {fs : Fs}
    (reached : Run.Reachable TableInv step (fun fs event => Allowed fs event ∧ InRange fs event) fs) :
    (∀ i, fs.filep i ≠ 0 -> i < maxFds ∧ (i : Int) < fs.total) ∧
      ∀ event, Allowed fs event ->
        ((∀ index, exec fs event ≠ .error (.outOfRange index)) ↔ InRange fs event) ∧
        (InRange fs event -> ∀ next, exec fs event = .ok next ->
          ∀ i, fs.filep i ≠ 0 -> ¬ event.Targets i -> next.filep i = fs.filep i) := by
  have inv : TableInv fs := reached.invariant (fun _ table => table) fun fs event next inv may moved => by
    exact ((exec_change inv may.1 may.2 (step_iff.1 moved)).table inv).1
  refine ⟨fun i used => ⟨?_, inv.below i used⟩, fun event may => ⟨⟨fun safe => ?_, fun range index => ?_⟩, ?_⟩⟩
  · have below := inv.below i used
    have most := inv.most
    omega
  · by_contra outside
    obtain ⟨index, escaped⟩ := exec_escapes inv may outside
    exact safe index escaped
  · rcases exec_cases inv may range with ⟨bug, _⟩ | ⟨next, ran, _⟩
    · simp [bug]
    · simp [ran]
  · exact fun range next ran => ((exec_change inv may range ran).table inv).2

def booted : Fs where
  filep i := if i < 3 then i + 1 else 0
  total := 3
  file fp := if fp = 1 then ⟨.input, 0⟩ else ⟨.output, 0⟩
  object _ := none

theorem booted_table : TableInv booted := by
  have low : ∀ i, booted.filep i ≠ 0 -> i < 3 ∧ booted.filep i = i + 1 := by
    intro i used
    simp only [booted] at used ⊢
    split_ifs at used ⊢ with small
    · exact ⟨small, rfl⟩
    · exact absurd rfl used
  refine ⟨by decide, by decide, fun i used => ?_, fun i j used same => ?_, fun i used counted => ?_⟩
  · have small := (low i used).1
    simp only [booted]
    omega
  · have first := (low i used).2
    have second := (low j (same ▸ used)).2
    omega
  · simp only [booted] at counted
    split_ifs at counted <;> cases counted

theorem TableInv.fresh {fs : Fs} (inv : TableInv fs) {alloc : Nat} (apart : ∀ i < maxFds, fs.filep i ≠ alloc) :
    Fresh fs alloc := by
  intro i used
  have below := inv.below i used
  have most := inv.most
  exact apart i (by omega)

theorem booted_fresh : Fresh booted 9 := booted_table.fresh (by decide +kernel)

theorem descriptor_table_bounds_iff_booted :
    (∀ index, exec booted (.dup2 0 3 9) ≠ .error (.outOfRange index)) ↔ InRange booted (.dup2 0 3 9) :=
  ((descriptor_table_bounds_iff (.start booted_table)).2 (.dup2 0 3 9) ⟨by decide, booted_fresh⟩).1

theorem dup_past_the_table :
    TableInv booted ∧ Fresh booted 9 ∧ exec booted (.dup2 0 100 9) = .error (.outOfRange 100) ∧
      exec booted (.dup2 0 (-1) 9) = .error (.outOfRange (-1)) ∧
      exec booted (.fcntlDupfd 0 (-1) 9) = .error (.outOfRange (-1)) :=
  ⟨booted_table, booted_fresh, rfl, rfl, rfl⟩

end JinyKernel.Files
