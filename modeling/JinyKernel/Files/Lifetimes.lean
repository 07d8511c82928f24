import JinyKernel.Files.Counts

namespace JinyKernel.Files

open Census Function Option

-- `SYS_fs_dup2`: the target is no epoll object, and a file copied onto itself outlives the close before the
-- copy.
def Sustained (fs : Fs) : Event -> Prop
  | .dup2 fdOld fdNew _ => fs.lookup fdOld = 0 ∨ fs.lookup fdNew = 0 ∨
      (fs.file (fs.lookup fdNew)).type ≠ .eventPoll ∧
        (fdOld = fdNew -> ∀ addr, (fs.file (fs.lookup fdNew)).target = some addr ->
          (fs.object addr).bind Object.close ≠ none)
  | _ => True

-- The last descriptor of an inode takes its last reference, and no page keeps it.
def Sole (fs : Fs) (fp : Nat) : Prop :=
  ∀ addr object, (fs.file fp).target = some addr -> fs.object addr = some object -> object.kind = .inode ->
    entries fs addr = 1 -> object.count = 1 ∧ object.nrpages = 0

-- A new inode gets no reference of the list, and a call that takes the last descriptor finds nothing else
-- that keeps it.
def Accounted (fs : Fs) : Event -> Prop
  | .openFile _ (.newInode _ stat) => stat = false
  | .close arg => arg = 1 ∨ fs.lookup arg = 0 ∨ Sole fs (fs.lookup arg)
  | .dup2 fdOld fdNew _ => fs.lookup fdOld = 0 ∨ fs.lookup fdNew = 0 ∨ fdOld = fdNew ∨ Sole fs (fs.lookup fdNew)
  | _ => True

def Exact (fs next : Fs) : Prop :=
  ∀ addr, refs (next.object addr) - refs (fs.object addr) = (entries next addr : Int) - entries fs addr ∧
    (0 < entries fs addr -> (next.object addr = none ↔ entries next addr = 0))

section

variable {fs next : Fs}

theorem source_alive (counted : Counted fs) {fd : Int} (used : fs.lookup fd ≠ 0) :
    ∀ addr, (fs.file (fs.lookup fd)).target = some addr -> fs.object addr ≠ none := by
  intro addr named
  obtain ⟨i, -, within, entry⟩ := lookup_entry counted.table used
  rw [entry] at used named
  exact target_alive counted within ((refers_used used).trans named)

theorem opened_installed (counted : Counted fs) {i alloc : Nat} (within : i < maxFds) (free : fs.filep i = 0)
    (got : alloc ≠ 0) (fresh : Fresh fs alloc) {opened : Opened} (sound : opened.Sound fs) :
    Shifts (Accounted fs (.openFile alloc opened)) fs (install fs i alloc opened.file (opened.objects fs.object)) := by
  have refers : (install fs i alloc opened.file (opened.objects fs.object)).refers = _ := install_refers got fresh ..
  cases opened with
  | devNull | failed => exact copied counted within free got fresh (by rintro addr ⟨⟩)
  | foundInode inode =>
    refine copied counted within free got fresh fun addr named => ?_
    obtain ⟨_, object, present, _⟩ := sound
    cases named
    exact ne_none_iff_exists'.2 ⟨object, present⟩
  | socket sock => exact (created counted within (refers_free free) refers sound.2 rfl le_rfl fun _ => rfl).1
  | newInode inode stat =>
    refine (created counted within (refers_free free) refers sound.2 rfl (by cases stat <;> decide) ?_).1
    rintro (other | rfl)
    · exact absurd rfl other
    · rfl

theorem opened_closed (counted : Counted fs) (alloc : Nat) {opened : Opened} (sound : opened.Sound fs)
    (same : next.refers = fs.refers)
    (objects : next.object = release FileType.counted (opened.objects fs.object) opened.file) :
    Shifts (Accounted fs (.openFile alloc opened)) fs next := by
  rw [release_eq] at objects
  cases opened with
  | devNull | failed =>
    intro addr
    rw [entries_congr same, objects]
    exact .same ..
  | foundInode inode =>
    obtain ⟨_, object, found, _⟩ := sound
    refine settled same (objects.trans (dec_update ..)) ?_
    rw [found]
    exact .reopen object _
  | socket sock =>
    refine settled same (objects.trans (dec_update ..)) ?_
    rw [show fs.object sock = none from sound.2]
    exact .same ..
  | newInode inode stat =>
    have absent : fs.object inode = none := sound.2
    refine settled same (objects.trans (dec_update ..)) ?_
    rw [absent, absent_unused (counted.balanced inode) absent]
    cases stat with
    | false => exact .same ..
    | true => exact .stray nofun

theorem piped (counted : Counted fs) (fair : Prop) {i j wfp rfp wpipe rpipe : Nat} (withinW : i < maxFds)
    (withinR : j < maxFds) (apart : i ≠ j) (freeW : fs.filep i = 0) (freeR : fs.filep j = 0) (gotW : wfp ≠ 0)
    (gotR : rfp ≠ 0) (freshW : Fresh fs wfp) (freshR : Fresh fs rfp) (files : wfp ≠ rfp) (real : wpipe ≠ 0)
    (ends : wpipe ≠ rpipe) (newW : fs.object wpipe = none) (newR : fs.object rpipe = none) :
    Shifts fair fs (installPipe fs i wfp wpipe j rfp rpipe) := by
  -- without the reading end
  set half := install fs i wfp ⟨.outPipe, wpipe⟩ (update fs.object wpipe (some ⟨.pipe, 1, 0⟩))
  have wired : File.Wired ⟨.outPipe, wpipe⟩ := fun _ => real
  have written : Shifts fair fs half ∧ _ := created counted withinW (refers_free freeW) (install_refers gotW freshW ..)
    newW rfl le_rfl fun _ => rfl
  have countedHalf : Counted half := ⟨counted.table.install withinW freshW wired _,
    fun addr => (written.1 addr).balanced (counted.balanced addr)⟩
  have freeHalf : half.filep j = 0 := (update_of_ne apart.symm ..).trans freeR
  have newHalf : half.object rpipe = none := (update_of_ne ends.symm ..).trans newR
  have freshHalf : Fresh half rfp := freshR.install files
  have done : Shifts fair half _ ∧ _ := created countedHalf withinR (refers_free freeHalf)
    (install_refers gotR freshHalf ⟨.inPipe, rpipe⟩ (update half.object rpipe (some ⟨.pipe, 1, 0⟩))) newHalf rfl le_rfl
    fun _ => rfl
  intro addr
  by_cases first : addr = wpipe
  · obtain ⟨object, used⟩ := done.2 addr (first ▸ ends)
    have shift := written.1 addr
    rw [← object, ← used] at shift
    exact shift
  · obtain ⟨object, used⟩ := written.2 addr first
    rw [← object, ← used]
    exact done.1 addr

theorem closed_eq {file : File} (kind : file.type ≠ .eventPoll) (objects : Nat -> Option Object) :
    release FileType.closedByDup objects file = dec objects file.target := by
  obtain ⟨type, vinode⟩ := file
  cases type <;> first | rfl | exact absurd rfl kind

section

variable (counted : Counted fs)

include counted

theorem Sole.close {i addr : Nat} {object : Object} (sole : Sole fs (fs.filep i)) (used : fs.filep i ≠ 0)
    (refers : fs.refers i = some addr) (present : fs.object addr = some object) (one : entries fs addr = 1) :
    object.close = none := by
  by_cases inode : object.kind = .inode
  · obtain ⟨count, pages⟩ := sole addr object ((refers_used used).symm.trans refers) present inode one
    exact if_pos ⟨by omega, fun _ => pages⟩
  · have balance := counted.balanced addr
    rw [present] at balance
    have count := (balance.2 inode).1
    exact if_pos ⟨by omega, fun kind => absurd kind inode⟩

theorem replaced {fair : Prop} {a b : Nat} (withinA : a < maxFds) (withinB : b < maxFds) (openA : fs.filep a ≠ 0)
    (openB : fs.filep b ≠ 0) (kind : (fs.file (fs.filep b)).type ≠ .eventPoll)
    (outlives : a = b -> ∀ addr, (fs.file (fs.filep b)).target = some addr -> (fs.object addr).bind Object.close ≠ none)
    (sole : fair -> a = b ∨ Sole fs (fs.filep b)) :
    Shifts fair fs (rebind fs (fs.filep b) (fs.file (fs.filep a))) := by
  have readA := refers_used openA
  have readB := refers_used openB
  refine exchange counted withinB (rebind_refers counted.table openB _) ?_ (fun addr named => ?_)
    (fun addr named old => ?_) fun addr object old other present holds one => ?_
  · simp only [rebind]
    rw [retain_eq, closed_eq kind, readB]
  · exact target_alive counted withinA (readA.trans named)
  · by_cases same : a = b
    · exact outlives same addr (readB ▸ old)
    -- two entries share the object
    have two := census_two withinA withinB same (readA.trans named) old
    obtain ⟨object, present⟩ := ne_none_iff_exists'.1 (target_alive counted withinB old)
    have balance := counted.balanced addr
    rw [present] at balance ⊢
    exact balance.close_ne two
  · rcases sole holds with rfl | sole
    · exact absurd (readB.symm.trans old) other
    · exact sole.close counted openB old present one

theorem replaced_epoll {a b : Nat} (withinB : b < maxFds) (openB : fs.filep b ≠ 0)
    (kind : (fs.file (fs.filep b)).type = .eventPoll) : ¬ Exact fs (rebind fs (fs.filep b) (fs.file (fs.filep a))) := by
  intro exactly
  set addr := (fs.file (fs.filep b)).vinode
  set target := (fs.file (fs.filep a)).target with named
  have refers : fs.refers b = some addr := by
    rw [refers_used openB, File.target, kind]
    rfl
  have change := entries_update withinB (rebind_refers counted.table openB (fs.file (fs.filep a))) addr
  have objects : (rebind fs (fs.filep b) (fs.file (fs.filep a))).object = inc fs.object target := by
    simp only [rebind]
    rw [retain_eq, release, kind]
    rfl
  have moved := (exactly addr).1
  rw [if_pos refers, ← named] at change
  rw [objects] at moved
  obtain ⟨object, present⟩ := ne_none_iff_exists'.1 (target_alive counted withinB refers)
  rw [present] at moved
  split_ifs at change with enters
  · rw [enters, inc_self, present, map_some] at moved
    simp only [refs, Object.inc] at moved
    omega
  · rw [inc_other _ enters, present] at moved
    omega

theorem replaced_last {a addr : Nat} (within : a < maxFds) (openA : fs.filep a ≠ 0)
    (kind : (fs.file (fs.filep a)).type ≠ .eventPoll) (refers : fs.refers a = some addr)
    (last : (fs.object addr).bind Object.close = none) : ¬ Exact fs (rebind fs (fs.filep a) (fs.file (fs.filep a))) := by
  intro exactly
  have read := refers_used openA
  have change := entries_update within (rebind_refers counted.table openA (fs.file (fs.filep a))) addr
  rw [← read, if_pos refers] at change
  have gone : (rebind fs (fs.filep a) (fs.file (fs.filep a))).object addr = none := by
    simp only [rebind]
    rw [retain_eq, closed_eq kind, ← read, refers, inc_self, dec_self, last]
    rfl
  have positive : 0 < entries fs addr := census_pos within refers
  have unused := ((exactly addr).2 positive).1 gone
  omega

theorem Change.shifts {event : Event} {next : Fs} (change : Change fs event next) (sustained : Sustained fs event) :
    Shifts (Accounted fs event) fs next := by
  have inv := counted.table
  cases change with
  | spared spared same =>
    intro addr
    rw [entries_congr (spared_refers spared), same]
    exact .same ..
  | reclosed sound spared closed => exact opened_closed counted _ sound (spared_refers spared) closed
  | opened got fresh sound within free => exact opened_installed counted within free got fresh sound
  | piped may withinW withinR entries freeW freeR gotW gotR =>
    obtain ⟨freshW, freshR, apart, realW, _, ends, newW, newR⟩ := may
    exact Files.piped counted _ withinW withinR entries freeW freeR gotW gotR freshW freshR
      (apart.resolve_left gotW) realW
      ends newW newR
  | @polled _ epoll _ got may within free =>
    exact (created counted within (refers_free free) (install_refers got may.1 ⟨.eventPoll, epoll⟩
      (update fs.object epoll (some ⟨.epoll, 1, 0⟩))) may.2.2 rfl le_rfl fun _ => rfl).1
  | copied got fresh within free used =>
    rw [retain_eq]
    exact Files.copied counted within free got fresh (source_alive counted used)
  | @rebound a b _ withinA withinB openA openB =>
    simp only [Sustained, lookup_eq inv] at sustained
    obtain ⟨kind, outlives⟩ := (sustained.resolve_left openA).resolve_left openB
    refine replaced counted withinA withinB openA openB kind (fun same => outlives (by rw [same])) fun accounted => ?_
    simp only [Accounted, lookup_eq inv] at accounted
    exact ((accounted.resolve_left openA).resolve_left openB).imp_left Int.ofNat.inj
  | @detached i within used real =>
    refine exchange counted within (detach_refers inv _) (?_ : _ = inc (dec fs.object _) none) ?_ ?_
      fun addr object refers _ present accounted one => ?_
    · rw [refers_used used]
      exact release_eq ..
    · rintro addr ⟨⟩
    · rintro addr ⟨⟩
    · simp only [Accounted, lookup_eq inv] at accounted
      have sole := (accounted.resolve_left (by omega)).resolve_left used
      exact sole.close counted used refers present one
  | @paged inode nrpages may =>
    obtain ⟨object, present, kind⟩ := may
    refine settled rfl rfl ?_
    rw [present]
    exact .page object _ nrpages kind

theorem Change.still_counted {event : Event} {next : Fs} (change : Change fs event next)
    (sustained : Sustained fs event) :
    Counted next :=
  ⟨(change.table counted.table).1, fun addr => (change.shifts counted sustained addr).balanced (counted.balanced addr)⟩

theorem exact_sole {i : Nat} {target : Option Nat} (within : i < maxFds) (used : fs.filep i ≠ 0)
    (moved : next.refers = update fs.refers i target) (objects : next.object = inc (dec fs.object (fs.refers i)) target)
    (kept : ∀ addr, target = some addr -> fs.refers i = some addr -> 2 ≤ entries fs addr) (exactly : Exact fs next) :
    Sole fs (fs.filep i) := by
  intro addr object target present inode sole
  have refers : fs.refers i = some addr := (refers_used used).trans target
  have other : _ ≠ some addr := fun same => by
    have two := kept addr same refers
    omega
  have change := entries_update within moved addr
  rw [if_pos refers, if_neg other] at change
  have gone := ((exactly addr).2 (by omega)).2 (by omega)
  rw [objects, inc_other _ other, refers, dec_self, present, bind_some] at gone
  have balance := counted.balanced addr
  rw [present] at balance
  have covered := balance.1
  rcases object.close_eq with ⟨_, last, unpaged⟩ | ⟨stays, _⟩
  · exact ⟨by omega, unpaged inode⟩
  · cases stays.symm.trans gone

theorem first_entry {i alloc addr : Nat} {file : File} (within : i < maxFds) (free : fs.filep i = 0) (got : alloc ≠ 0)
    (fresh : Fresh fs alloc) (absent : fs.object addr = none) (named : file.target = some addr)
    (objects : Nat -> Option Object) : entries (install fs i alloc file objects) addr = 1 := by
  have change := entries_update within (install_refers got fresh file objects) addr
  rw [refers_free free, if_neg (by simp), if_pos named, absent_unused (counted.balanced addr) absent] at change
  omega

theorem listed_inexact {alloc inode : Nat} (may : Allowed fs (.openFile alloc (.newInode inode true))) :
    ∃ next, exec fs (.openFile alloc (.newInode inode true)) = .ok next ∧ ¬ Exact fs next := by
  obtain ⟨got, fresh, sound⟩ := may
  have absent := sound.2
  rcases sysFsOpen_spec counted.table got fresh sound.wired with
    ⟨_, _, never⟩ | ⟨next, ran, spared, closed⟩ | ⟨i, within, free, ran⟩
  · cases never
  · refine ⟨next, ran, fun exactly => ?_⟩
    have change := (exactly inode).1
    rw [entries, entries, spared_refers spared, closed, absent, Int.sub_self] at change
    simp [release, Opened.objects, Opened.file, FileType.counted, Object.close, refs] at change
  · refine ⟨_, ran, fun exactly => ?_⟩
    have change := (exactly inode).1
    rw [absent, first_entry counted within free got fresh absent rfl,
      absent_unused (counted.balanced inode) absent] at change
    simp [install, Opened.objects, refs] at change

theorem exec_inexact {event : Event} (may : Allowed fs event) (range : InRange fs event)
    (broken : ¬ (Sustained fs event ∧ Accounted fs event)) : ∃ next, exec fs event = .ok next ∧ ¬ Exact fs next := by
  have inv := counted.table
  cases event with
  | dup2 fdOld fdNew alloc =>
    obtain ⟨got, fresh⟩ := may
    have spec : exec fs (.dup2 fdOld fdNew alloc) = _ := sysFsDup2_eq inv got fresh range
    by_cases openOld : fs.lookup fdOld = 0
    · exact absurd ⟨.inl openOld, .inl openOld⟩ broken
    by_cases openNew : fs.lookup fdNew = 0
    · exact absurd ⟨.inr (.inl openNew), .inr (.inl openNew)⟩ broken
    obtain ⟨a, rfl, withinA, entryA⟩ := lookup_entry inv openOld
    obtain ⟨b, rfl, withinB, entryB⟩ := lookup_entry inv openNew
    rw [if_neg openOld, if_neg openNew, entryA, entryB] at spec
    refine ⟨_, spec, fun exactly => ?_⟩
    rw [entryA] at openOld
    rw [entryB] at openNew
    by_cases kind : (fs.file (fs.filep b)).type = .eventPoll
    · exact replaced_epoll counted withinB openNew kind exactly
    by_cases same : a = b
    · subst same
      refine broken ⟨.inr (.inr ⟨by rwa [entryA], fun _ addr target gone => ?_⟩), .inr (.inr (.inl rfl))⟩
      rw [entryA] at target
      exact replaced_last counted withinA openOld kind ((refers_used openOld).trans target) gone exactly
    · have apart (equal : (a : Int) = b) : ∀ addr, (fs.file (fs.lookup b)).target = some addr ->
          (fs.object addr).bind Object.close ≠ none := absurd (Int.ofNat.inj equal) same
      have objects : (rebind fs (fs.filep b) (fs.file (fs.filep a))).object = _ := retain_eq ..
      rw [closed_eq kind, ← refers_used openNew] at objects
      refine broken ⟨.inr (.inr ⟨by rwa [entryB], apart⟩), .inr (.inr (.inr ?_))⟩
      rw [entryB]
      exact exact_sole counted withinB openNew (rebind_refers inv openNew _) objects
        (fun addr target => census_two withinA withinB same ((refers_used openOld).trans target)) exactly
  | close arg =>
    rcases sysFsClose_spec inv may with ⟨_, nothing⟩ | ⟨i, rfl, within, used, ran⟩
    · exact absurd ⟨trivial, nothing.imp_right .inl⟩ broken
    by_cases one : i = 1
    · exact absurd ⟨trivial, .inl (by omega)⟩ broken
    refine ⟨_, ran, fun exactly => broken ⟨trivial, .inr (.inr ?_)⟩⟩
    rw [lookup_eq inv]
    refine exact_sole counted within used (detach_refers inv i) (?_ : _ = inc (dec fs.object _) none) ?_ exactly
    · rw [refers_used used]
      exact release_eq ..
    · rintro addr ⟨⟩
  | openFile alloc opened =>
    cases opened with
    | newInode inode stat =>
      cases stat with
      | false => exact absurd ⟨trivial, rfl⟩ broken
      | true => exact listed_inexact counted may
    | devNull | socket | foundInode | failed => exact absurd ⟨trivial, trivial⟩ broken
  | pipe | epollCreate | dup | fcntlDupfd | pages => exact absurd ⟨trivial, trivial⟩ broken

end

-- A task's first table.
structure Start (fs : Fs) : Prop where
  table : TableInv fs
  uncounted : ∀ i, fs.refers i = none
  inodes : ∀ addr object, fs.object addr = some object -> object.kind = .inode ∧ 0 ≤ object.count

theorem Start.counted (start : Start fs) : Counted fs where
  table := start.table
  balanced addr := by
    have zero : entries fs addr = 0 := census_eq_zero fun i _ => by simp [start.uncounted i]
    rw [zero]
    cases present : fs.object addr with
    | none => rfl
    | some object =>
      obtain ⟨inode, natural⟩ := start.inodes addr object present
      exact ⟨natural, fun other => absurd inode other⟩

abbrev Runs : Fs -> Prop :=
  Run.Reachable Start step fun fs event => Allowed fs event ∧ InRange fs event ∧ Sustained fs event

theorem Runs.counted (reached : Runs fs) : Counted fs :=
  reached.invariant (fun _ => Start.counted) fun fs event next inv may moved => by
    obtain ⟨allowed, range, sustained⟩ := may
    exact (exec_change inv.table allowed range (step_iff.1 moved)).still_counted inv sustained

theorem reference_counts_iff (reached : Runs fs) :
    (∀ addr, 0 < entries fs addr -> fs.object addr ≠ none) ∧
      ∀ event, Allowed fs event -> InRange fs event ->
        ((∀ next, exec fs event = .ok next -> Exact fs next) ↔ Sustained fs event ∧ Accounted fs event) := by
  have counted := reached.counted
  refine ⟨fun addr positive gone => ?_, fun event may range => ⟨fun exactly => ?_, fun both next ran => ?_⟩⟩
  · have zero := absent_unused (counted.balanced addr) gone
    omega
  · by_contra broken
    obtain ⟨next, ran, inexact⟩ := exec_inexact counted may range broken
    exact inexact (exactly next ran)
  · have shifts := (exec_change counted.table may range ran).shifts counted both.1
    exact fun addr => (shifts addr).exact (counted.balanced addr) both.2

end

theorem booted_start : Start booted where
  table := booted_table
  uncounted i := by
    simp only [Fs.refers, booted]
    split_ifs <;> rfl
  inodes addr object absent := by cases absent

def wired : Fs := ((exec booted (.pipe 9 10 20 21 true)).toOption).getD booted

theorem wired_reached : Runs wired := by
  have fresh : Allowed booted (.pipe 9 10 20 21 true) :=
    ⟨booted_fresh, booted_table.fresh (by decide +kernel), by decide, by decide, by decide, by decide, rfl, rfl⟩
  exact .next (.start booted_start) ⟨fresh, trivial, trivial⟩ rfl

-- Descriptor 3 gets a second reference of the reading end; the writing end goes with its last entry.
theorem reference_counts_iff_wired :
    ∃ next, exec wired (.dup2 4 3 11) = .ok next ∧ Exact wired next ∧ next.object 20 = none ∧
      next.object 21 = some ⟨.pipe, 2, 0⟩ := by
  have fresh : Fresh wired 11 := wired_reached.counted.table.fresh (by decide +kernel)
  have counts := (reference_counts_iff wired_reached).2 (.dup2 4 3 11) ⟨by decide, fresh⟩ (.inr (by decide))
  refine ⟨_, rfl, counts.2 ⟨.inr (.inr ⟨by decide, by decide⟩), .inr (.inr (.inr ?_))⟩ _ rfl, rfl, rfl⟩
  rintro addr object ⟨⟩ ⟨⟩ ⟨⟩

theorem dup_onto_itself_and_epoll : Start booted ∧
      (∃ piped after, exec booted (.pipe 9 10 20 21 true) = .ok piped ∧ exec piped (.dup2 3 3 11) = .ok after ∧
        after.refers 3 = some 20 ∧ after.object 20 = none) ∧
      (∃ polled after, exec booted (.epollCreate 9 20) = .ok polled ∧ exec polled (.dup2 0 3 11) = .ok after ∧
        entries after 20 = 0 ∧ after.object 20 = some ⟨.epoll, 1, 0⟩) ∧
      ∃ opened after, exec booted (.openFile 9 (.newInode 20 true)) = .ok opened ∧ exec opened (.close 3) = .ok after ∧
        opened.object 20 = some ⟨.inode, 2, 0⟩ ∧ entries opened 20 = 1 ∧
        entries after 20 = 0 ∧ after.object 20 = some ⟨.inode, 1, 0⟩ :=
  ⟨booted_start, ⟨_, _, rfl, rfl, rfl, rfl⟩, ⟨_, _, rfl, rfl, by decide +kernel, rfl⟩,
    _, _, rfl, rfl, rfl, by decide +kernel, by decide +kernel, rfl⟩

end JinyKernel.Files
