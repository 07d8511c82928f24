import JinyKernel.Files.Kinds
import JinyKernel.Epoll.Lists

namespace JinyKernel.Epoll

open Files Census Option Run Function

inductive Event where
  | files (event : Files.Event)
  | ctl (efd op fd : Nat)

variable (sys : Sys)

def step : Event -> Option Sys
  | .files event => (Files.step sys.fs event).map (renew sys)
  | .ctl efd op fd => ((sysEpollCtl sys efd op fd).map Prod.snd).toOption

def LiveEpoll (e : Nat) : Prop := ∃ object, sys.fs.object e = some object ∧ object.kind = .epoll

def LiveVinode (v : Nat) : Prop := ∃ object, sys.fs.object v = some object ∧ object.kind ≠ .epoll

def pointsTo (fs : Fs) (fd : Int) : Option Nat :=
  if fs.lookup fd = 0 then none else (fs.file (fs.lookup fd)).target

def registered (e v : Nat) : Nat :=
  census (sys.epoll e).fdCount (fun i => pointsTo sys.fs ((sys.epoll e).fds i)) v

structure Consistent : Prop where
  counts : ∀ v e, LiveVinode sys v -> LiveEpoll sys e -> occurrences (sys.epollList v) e = registered sys e v
  filled : ∀ v, LiveVinode sys v -> Filled (sys.epollList v)
  live : ∀ v, LiveVinode sys v -> ∀ k < maxEfdsPerFd, ∀ e, sys.epollList v k = some e -> LiveEpoll sys e
  opened : ∀ e, LiveEpoll sys e -> ∀ i < (sys.epoll e).fdCount, sys.fs.lookup ((sys.epoll e).fds i) ≠ 0

def Allowed : Event -> Prop
  | .files event => Files.Allowed sys.fs event
  | .ctl _ _ fd => (sys.fs.file (sys.fs.lookup fd)).vinode ≠ 0 -> (sys.fs.file (sys.fs.lookup fd)).type.counted

def Registered (fd : Nat) : Prop :=
  ∃ e, LiveEpoll sys e ∧ ∃ i < (sys.epoll e).fdCount, (sys.epoll e).fds i = fd

def ctlPair (fs : Fs) (efd fd : Nat) : Option (Nat × Nat) :=
  if fs.lookup efd = 0 ∨ (fs.file (fs.lookup efd)).type ≠ .eventPoll then none
  else if fs.lookup fd = 0 ∨ (fs.file (fs.lookup fd)).type = .eventPoll ∨ (fs.file (fs.lookup fd)).vinode = 0 then none
  else some ((fs.file (fs.lookup efd)).vinode, (fs.file (fs.lookup fd)).vinode)

-- A descriptor is deleted before it is closed or replaced, all of them before the object goes; `ADD` finds
-- room in `epoll_list`; `DEL` is for the only descriptor of its vinode.
def Careful : Event -> Prop
  | .files event => InRange sys.fs event ∧ Sustained sys.fs event ∧
      ∀ fd, event.Drops sys.fs fd -> ¬ Registered sys fd ∧
        ∀ e, LiveEpoll sys e -> (∀ other, sys.fs.refers other = some e ↔ other = fd) -> (sys.epoll e).fdCount = 0
  | .ctl efd op fd => ∀ e v, ctlPair sys.fs efd fd = some (e, v) ->
      (op = epollCtlAdd -> (sys.epoll e).fdCount < maxEpollFds - 1 -> freeEntry (sys.epollList v) ≠ none) ∧
      (op = epollCtlDel -> registered sys e v ≤ 1)

structure Inv : Prop where
  counted : Counted sys.fs
  typed : Typed sys.fs
  consistent : Consistent sys
  bounded : ∀ e, LiveEpoll sys e -> (sys.epoll e).fdCount ≤ maxEpollFds - 1

section

variable {sys : Sys} {fd : Int} {v e : Nat}

theorem kept_fd {dropped : Nat -> Prop} {fs next : Fs} (table : TableInv fs) (tableNext : TableInv next)
    (carried : Carried dropped fs next) (used : fs.lookup fd ≠ 0) (spared : ∀ i : Nat, fd = i -> ¬ dropped i) :
    next.lookup fd ≠ 0 ∧ pointsTo next fd = pointsTo fs fd := by
  obtain ⟨i, rfl, _, entry⟩ := lookup_entry table used
  obtain ⟨open_, file⟩ := carried.kept i (entry ▸ used) (spared i rfl)
  have later := lookup_eq tableNext i
  refine ⟨later.trans_ne open_, ?_⟩
  rw [pointsTo, pointsTo, if_neg used, if_neg (later.trans_ne open_), later, file, entry]

theorem pointsTo_alive (counted : Counted sys.fs) (points : pointsTo sys.fs fd = some v) :
    sys.fs.object v ≠ none := by
  rw [pointsTo] at points
  split at points
  next => cases points
  next used => exact source_alive counted used v points

theorem epoll_gone {fs next : Fs} {event : Files.Event} (counted : Counted fs) (later : Counted next)
    (carried : Carried (fun i => event.Drops fs i) fs next) {object : Object} (here : fs.object e = some object)
    (kind : object.kind = .epoll) (gone : next.object e = none) :
    ∃ fd, event.Drops fs fd ∧ ∀ other, fs.refers other = some e ↔ other = fd := by
  have balance := counted.balanced e
  rw [here] at balance
  have used := (balance.2 (by simp [kind])).2
  have left := absent_unused (later.balanced e) gone
  -- an entry that is not dropped would keep the object
  have drops : ∀ other, fs.refers other = some e -> event.Drops fs other := by
    intro other refers
    have open_ : fs.filep other ≠ 0 := by
      intro free
      rw [refers_free free] at refers
      cases refers
    by_contra spared
    obtain ⟨still, file⟩ := carried.kept other open_ spared
    have below := later.table.below other still
    have most := later.table.most
    rw [refers_used open_, ← file, ← refers_used still] at refers
    have positive : 0 < entries next e := census_pos (by omega) refers
    omega
  obtain ⟨fd, refers⟩ : ∃ fd, fs.refers fd = some e := by
    by_contra nowhere
    push Not at nowhere
    have zero : entries fs e = 0 := census_eq_zero fun i _ => nowhere i
    omega
  refine ⟨fd, drops fd refers, fun other => ⟨fun points => (drops other points).unique (drops fd refers), ?_⟩⟩
  rintro rfl
  exact refers

section

variable {next : Fs}

theorem renew_epoll (there : sys.fs.object e ≠ none) : (renew sys next).epoll e = sys.epoll e := if_neg there

theorem renew_epoll_new (new : sys.fs.object e = none) : (renew sys next).epoll e = {} := if_pos new

theorem renew_list (there : sys.fs.object v ≠ none) : (renew sys next).epollList v = sys.epollList v :=
  if_neg there

theorem renew_list_new (new : sys.fs.object v = none) : (renew sys next).epollList v = fun _ => none :=
  if_pos new

theorem kind_before (good : Kind -> Prop) (kinds : KeepsKinds sys.fs.object next.object)
    (live : ∃ later, next.object e = some later ∧ good later.kind) :
    sys.fs.object e = none ∨ ∃ object, sys.fs.object e = some object ∧ good object.kind := by
  obtain ⟨later, there, kind⟩ := live
  cases here : sys.fs.object e with
  | none => exact .inl rfl
  | some object => exact .inr ⟨object, rfl, kinds e object later here there ▸ kind⟩

theorem LiveEpoll.there (live : LiveEpoll sys e) : sys.fs.object e ≠ none := by
  obtain ⟨object, here, _⟩ := live
  simp [here]

theorem LiveVinode.there (live : LiveVinode sys v) : sys.fs.object v ≠ none := by
  obtain ⟨object, here, _⟩ := live
  simp [here]

theorem Inv.files (inv : Inv sys) {event : Files.Event} (may : Files.Allowed sys.fs event)
    (careful : Careful sys (.files event)) (ran : exec sys.fs event = .ok next) : Inv (renew sys next) := by
  obtain ⟨range, sustained, drops⟩ := careful
  have counted := inv.counted
  have change := exec_change counted.table may range ran
  have later := change.still_counted counted sustained
  have carried := change.carried counted inv.typed
  have kinds := carried.kinds
  have liveBefore : ∀ {e}, LiveEpoll (renew sys next) e -> sys.fs.object e = none ∨ LiveEpoll sys e :=
    kind_before (· = .epoll) kinds
  have vinodeBefore : ∀ {v}, LiveVinode (renew sys next) v -> sys.fs.object v = none ∨ LiveVinode sys v :=
    kind_before (· ≠ .epoll) kinds
  -- registered descriptors are open and are not dropped
  have kept : ∀ e, LiveEpoll sys e -> ∀ i < (sys.epoll e).fdCount, next.lookup ((sys.epoll e).fds i) ≠ 0 ∧
      pointsTo next ((sys.epoll e).fds i) = pointsTo sys.fs ((sys.epoll e).fds i) := by
    intro e live i below
    refine kept_fd counted.table later.table carried (inv.consistent.opened e live i below) fun fd same dropped => ?_
    exact (drops fd dropped).1 ⟨e, live, i, below, same⟩
  have same : ∀ e, LiveEpoll sys e -> ∀ v, registered (renew sys next) e v = registered sys e v := by
    intro e live v
    rw [registered, registered, renew_epoll live.there]
    exact census_congr fun i below => (kept e live i below).2
  have survives : ∀ e, LiveEpoll sys e -> (sys.epoll e).fdCount ≠ 0 -> LiveEpoll (renew sys next) e := by
    rintro e ⟨object, here, kind⟩ used
    cases there : next.object e with
    | some later => exact ⟨later, there, (kinds e object later here there).trans kind⟩
    | none =>
      obtain ⟨fd, dropped, only⟩ := epoll_gone counted later carried here kind there
      exact absurd ((drops fd dropped).2 e ⟨object, here, kind⟩ only) used
  refine ⟨later, carried.typed, ⟨fun v e vinode live => ?_, fun v vinode => ?_, fun v vinode k within e at_ => ?_,
    fun e live i below => ?_⟩, fun e live => ?_⟩
  · rcases liveBefore live with newE | oldE
    · have zero : registered (renew sys next) e v = 0 := by
        rw [registered, renew_epoll_new newE]
        rfl
      rw [zero]
      refine census_eq_zero fun k within at_ => ?_
      rcases vinodeBefore vinode with newV | oldV
      · rw [renew_list_new newV] at at_
        cases at_
      · rw [renew_list oldV.there] at at_
        exact (inv.consistent.live v oldV k within e at_).there newE
    · rw [same e oldE]
      rcases vinodeBefore vinode with newV | oldV
      · -- nothing that was registered refers to a vinode made by this call
        have zero : registered sys e v = 0 := census_eq_zero fun i _ points => pointsTo_alive counted points newV
        rw [zero, renew_list_new newV]
        exact census_eq_zero (by simp)
      · rw [renew_list oldV.there]
        exact inv.consistent.counts v e oldV oldE
  · rcases vinodeBefore vinode with new | old
    · rw [renew_list_new new]
      exact fun _ _ _ _ _ => rfl
    · rw [renew_list old.there]
      exact inv.consistent.filled v old
  · rcases vinodeBefore vinode with new | old
    · rw [renew_list_new new] at at_
      cases at_
    rw [renew_list old.there] at at_
    have live := inv.consistent.live v old k within e at_
    refine survives e live fun zero => ?_
    -- an entry of the list stands for a registered descriptor
    have counts := inv.consistent.counts v e old live
    have once : 0 < occurrences (sys.epollList v) e := census_pos within at_
    have zero : registered sys e v = 0 := by
      rw [registered, zero]
      rfl
    omega
  · rcases liveBefore live with new | old
    · rw [renew_epoll_new new] at below
      exact absurd below (Nat.not_lt_zero i)
    · rw [renew_epoll old.there] at below ⊢
      exact (kept e old i below).1
  · rcases liveBefore live with new | old
    · rw [renew_epoll_new new]
      exact Nat.zero_le _
    · rw [renew_epoll old.there]
      exact inv.bounded e old

end

section

variable {e v : Nat} {epoll : EpollStruct} {list : Nat -> Option Nat}

theorem Inv.ctl (inv : Inv sys) (less more : Nat)
    (fds : ∀ other, census epoll.fdCount (fun i => pointsTo sys.fs (epoll.fds i)) other +
      (if v = other then less else 0) =
      registered sys e other + if v = other then more else 0)
    (entries : ∀ other, occurrences list other + (if e = other then less else 0) =
      occurrences (sys.epollList v) other + if e = other then more else 0)
    (filled : Filled list) (members : ∀ k < maxEfdsPerFd, ∀ other, list k = some other -> LiveEpoll sys other)
    (opened : ∀ i < epoll.fdCount, sys.fs.lookup (epoll.fds i) ≠ 0) (bounded : epoll.fdCount ≤ maxEpollFds - 1) :
    Inv (setList (setEpoll sys e epoll) v list) := by
  set next := setList (setEpoll sys e epoll) v list
  have epollHere : next.epoll e = epoll := update_self ..
  have epollThere : ∀ {other}, other ≠ e -> next.epoll other = sys.epoll other := fun apart => update_of_ne apart ..
  have listHere : next.epollList v = list := update_self ..
  have listThere : ∀ {other}, other ≠ v -> next.epollList other = sys.epollList other :=
    fun apart => update_of_ne apart ..
  refine ⟨inv.counted, inv.typed, ⟨fun w f vinode live => ?_, fun w vinode => ?_, fun w vinode k within f at_ => ?_,
    fun f live i below => ?_⟩, fun f live => ?_⟩
  · have old := inv.consistent.counts w f vinode live
    have registeredHere : registered next e w = census epoll.fdCount (fun i => pointsTo sys.fs (epoll.fds i)) w := by
      rw [registered, epollHere]
      rfl
    have registeredThere : f ≠ e -> registered next f w = registered sys f w := by
      intro apart
      rw [registered, registered, epollThere apart]
      rfl
    by_cases sameV : w = v
    · subst sameV
      have change := entries f
      rw [listHere]
      by_cases sameE : f = e
      · subst sameE
        have moved := fds w
        rw [if_pos rfl, if_pos rfl] at change moved
        omega
      · rw [if_neg (Ne.symm sameE), if_neg (Ne.symm sameE)] at change
        omega
    · rw [listThere sameV]
      by_cases sameE : f = e
      · subst sameE
        have moved := fds w
        rw [if_neg (Ne.symm sameV), if_neg (Ne.symm sameV)] at moved
        omega
      · rw [registeredThere sameE, old]
  · by_cases same : w = v
    · subst same
      rwa [listHere]
    · rw [listThere same]
      exact inv.consistent.filled w vinode
  · by_cases same : w = v
    · subst same
      rw [listHere] at at_
      exact members k within f at_
    · rw [listThere same] at at_
      exact inv.consistent.live w vinode k within f at_
  · by_cases same : f = e
    · subst same
      rw [epollHere] at below ⊢
      exact opened i below
    · rw [epollThere same] at below ⊢
      exact inv.consistent.opened f live i below
  · by_cases same : f = e
    · subst same
      rwa [epollHere]
    · rw [epollThere same]
      exact inv.bounded f live

theorem findFd_some {i : Nat} (found : findFd epoll fd = some i) :
    i < epoll.fdCount ∧ i < maxEpollFds ∧ epoll.fds i = fd := by
  have within := List.mem_range.1 (List.mem_of_find?_eq_some found)
  have here := List.find?_some found
  exact ⟨by omega, by omega, of_decide_eq_true here⟩

theorem dropFd_count (epoll : EpollStruct) (i : Nat) : (dropFd epoll i).fdCount = epoll.fdCount - 1 := by
  simp only [dropFd]
  split <;> rfl

theorem dropFd_fds {i : Nat} (top : i < maxEpollFds) :
    ∀ j < epoll.fdCount - 1, (dropFd epoll i).fds j = if j = i then epoll.fds (epoll.fdCount - 1) else epoll.fds j := by
  intro j below
  by_cases inner : i < epoll.fdCount - 1
  · rw [dropFd, if_pos ⟨inner, top⟩]
    dsimp only
    rw [update_of_ne (by omega)]
    by_cases here : j = i
    · rw [here, update_self, if_pos rfl, update_of_ne (by omega)]
    · rw [update_of_ne here, update_of_ne here, if_neg here]
  · rw [dropFd, if_neg fun both => inner both.1]
    dsimp only
    rw [update_of_ne (by omega), if_neg (by omega)]

theorem Inv.add (inv : Inv sys) (live : LiveEpoll sys e) (vinode : LiveVinode sys v) (used : sys.fs.lookup fd ≠ 0)
    (points : pointsTo sys.fs fd = some v)
    (room : (sys.epoll e).fdCount < maxEpollFds - 1 -> freeEntry (sys.epollList v) ≠ none) :
    Inv (ctlAdd sys e v fd).2 := by
  simp only [ctlAdd]
  split
  next => exact inv
  next absent =>
    split
    next => exact inv
    next small =>
      have low := not_le.1 small
      obtain ⟨k, found⟩ := ne_none_iff_exists'.1 (room low)
      rw [found]
      have old : ∀ i < (sys.epoll e).fdCount,
          update (sys.epoll e).fds (sys.epoll e).fdCount fd i = (sys.epoll e).fds i :=
        fun i below => update_of_ne (by omega) ..
      apply inv.ctl 0 1
      · intro other
        dsimp only
        rw [census_succ, update_self, points, registered]
        simp only [some.injEq, ite_self, Nat.add_zero]
        congr 1
        exact census_congr fun i below => by rw [old i below]
      · intro other
        rw [freeEntry_occurrences found]
        simp
      · exact freeEntry_filled (inv.consistent.filled v vinode) found
      · intro j within other at_
        by_cases here : j = k
        · rw [here, update_self] at at_
          cases at_
          exact live
        · rw [update_of_ne here] at at_
          exact inv.consistent.live v vinode j within other at_
      · intro i below
        dsimp only at below ⊢
        by_cases top : i = (sys.epoll e).fdCount
        · rw [top, update_self]
          exact used
        · rw [old i (by omega)]
          exact inv.consistent.opened e live i (by omega)
      · exact low

theorem Inv.del (inv : Inv sys) (live : LiveEpoll sys e) (vinode : LiveVinode sys v)
    (points : pointsTo sys.fs fd = some v) (only : registered sys e v ≤ 1) : Inv (ctlDel sys e v fd).2 := by
  simp only [ctlDel]
  split
  next => exact inv
  next i found =>
    obtain ⟨within, top, here⟩ := findFd_some found
    have fds : ∀ j < (sys.epoll e).fdCount - 1, (dropFd (sys.epoll e) i).fds j = _ := dropFd_fds top
    have size : (sys.epoll e).fdCount - 1 + 1 = (sys.epoll e).fdCount := by omega
    have one : 0 < registered sys e v := census_pos within (by rw [here, points])
    have once : occurrences (sys.epollList v) e = 1 := by
      rw [inv.consistent.counts v e vinode live]
      omega
    obtain ⟨counts, filled, members⟩ := dropEpoll_spec (inv.consistent.filled v vinode) once
    apply inv.ctl 1 0
    · intro other
      have shifted : ∀ j < (sys.epoll e).fdCount - 1, pointsTo sys.fs ((dropFd (sys.epoll e) i).fds j) =
          if j = i then pointsTo sys.fs ((sys.epoll e).fds ((sys.epoll e).fdCount - 1))
          else pointsTo sys.fs ((sys.epoll e).fds j) := by
        intro j below
        rw [fds j below]
        split <;> rfl
      have moved : _ = census ((sys.epoll e).fdCount - 1 + 1) (fun i => pointsTo sys.fs ((sys.epoll e).fds i)) other :=
        census_remove (by omega) shifted
      simp only [size, here, points, some.injEq] at moved
      rw [dropFd_count, moved, registered]
      simp
    · intro other
      rw [counts other]
      simp
    · exact filled
    · intro k inside other at_
      obtain ⟨j, low, same⟩ := members k inside (by simp [at_])
      exact inv.consistent.live v vinode j low other (same.symm.trans at_)
    · intro j below
      rw [dropFd_count] at below
      rw [fds j below]
      split
      next => exact inv.consistent.opened e live _ (by omega)
      next => exact inv.consistent.opened e live j (by omega)
    · have bound := inv.bounded e live
      rw [dropFd_count]
      omega

end

def ctl (sys : Sys) (op : Nat) (fd : Int) : Option (Nat × Nat) -> Int × Sys
  | none => (-1, sys)
  | some (e, v) =>
    if op = epollCtlAdd then ctlAdd sys e v fd else if op = epollCtlDel then ctlDel sys e v fd else (0, sys)

theorem sysEpollCtl_ok {efd op fd : Nat} {out : Int × Sys} (ran : sysEpollCtl sys efd op fd = .ok out) :
    out = ctl sys op fd (ctlPair sys.fs efd fd) := by
  have found : ∀ {fd : Int} {fp : Nat}, fdToFile sys.fs fd = .ok fp -> fp = sys.fs.lookup fd := by
    intro fd fp read
    rw [fdToFile, readFilep] at read
    rw [Fs.lookup]
    split at read <;> grind
  simp only [sysEpollCtl, bind, Except.bind] at ran
  split at ran
  next => cases ran
  next efilep readE =>
    cases found readE
    rw [ctlPair]
    split at ran
    next closed =>
      rw [if_pos closed]
      exact (Except.ok.inj ran).symm
    next opened =>
      rw [if_neg opened]
      split at ran
      next => cases ran
      next filep read =>
        cases found read
        split at ran
        next closed =>
          rw [if_pos closed]
          exact (Except.ok.inj ran).symm
        next pointed =>
          rw [if_neg pointed]
          simp only [ctl]
          grind

theorem sysEpollCtl_eq (table : TableInv sys.fs) (efd op fd : Nat) :
    sysEpollCtl sys efd op fd = .ok (ctl sys op fd (ctlPair sys.fs efd fd)) := by
  cases ran : sysEpollCtl sys efd op fd with
  | ok out => rw [sysEpollCtl_ok ran]
  | error =>
    simp only [sysEpollCtl, fdToFile_eq table, bind, Except.bind] at ran
    repeat' split at ran
    all_goals cases ran

def Strands (sys : Sys) (op : Nat) (fd : Int) (e v : Nat) : Prop :=
  op = epollCtlAdd ∧ findFd (sys.epoll e) fd = none ∧ (sys.epoll e).fdCount < maxEpollFds - 1 ∧
    freeEntry (sys.epollList v) = none

theorem epoll_ctl_failure_iff {efd op fd : Nat} {ret : Int} {next : Sys}
    (ran : sysEpollCtl sys efd op fd = .ok (ret, next)) :
    ((ret < 0 -> next.epoll = sys.epoll ∧ next.epollList = sys.epollList) ↔
      ∀ e v, ctlPair sys.fs efd fd = some (e, v) -> ¬ Strands sys op fd e v) ∧
    (op = epollCtlAdd -> 0 ≤ ret -> ∃ e v k, ctlPair sys.fs efd fd = some (e, v) ∧ k < maxEfdsPerFd ∧
      sys.epollList v k = none ∧ next.epollList = update sys.epollList v (update (sys.epollList v) k (some e)) ∧
      next.epoll = update sys.epoll e ⟨(sys.epoll e).fdCount + 1, update (sys.epoll e).fds
        (sys.epoll e).fdCount fd⟩) := by
  have done := sysEpollCtl_ok ran
  cases found : ctlPair sys.fs efd fd with
  | none =>
    rw [found] at done
    cases done
    simp
  | some pair =>
    obtain ⟨e, v⟩ := pair
    have only : (∀ a b, some (e, v) = some (a, b) -> ¬ Strands sys op fd a b) ↔ ¬ Strands sys op fd e v :=
      ⟨fun all => all e v rfl, fun clear _ _ same => by cases same; exact clear⟩
    rw [only, Strands]
    rw [found, ctl] at done
    split at done
    next add =>
      rw [ctlAdd] at done
      dsimp only at done
      split at done
      next known =>
        cases done
        simp [known]
      next new =>
        split at done
        next full =>
          cases done
          simp [full.not_gt]
        next room =>
          split at done
          next k free =>
            cases done
            have entry := freeEntry_some free
            exact ⟨by simp [free], fun _ _ => ⟨e, v, k, rfl, entry.1, entry.2.1, rfl, rfl⟩⟩
          next full =>
            cases done
            have kept : update sys.epoll e
                ⟨(sys.epoll e).fdCount + 1, update (sys.epoll e).fds (sys.epoll e).fdCount fd⟩ ≠ sys.epoll := by
              intro same
              have counts := congrArg EpollStruct.fdCount ((update_self ..).symm.trans (congrFun same e))
              dsimp only at counts
              omega
            have room : (sys.epoll e).fdCount < maxEpollFds - 1 := by omega
            simp [setEpoll, kept, add, new, full, room]
    next add =>
      split at done
      next =>
        rw [ctlDel] at done
        split at done <;> cases done <;> simp [add]
      cases done
      simp [add]

theorem ctl_fs (sys : Sys) (op : Nat) (fd : Int) (pair : Option (Nat × Nat)) : (ctl sys op fd pair).2.fs = sys.fs := by
  cases pair with
  | none => rfl
  | some pair =>
    simp only [ctl, ctlAdd, ctlDel]
    repeat' split
    all_goals rfl

theorem ctlPair_some (inv : Inv sys) {efd fd : Nat} (pair : ctlPair sys.fs efd fd = some (e, v))
    (kept : (sys.fs.file (sys.fs.lookup fd)).vinode ≠ 0 -> (sys.fs.file (sys.fs.lookup fd)).type.counted) :
    LiveEpoll sys e ∧ LiveVinode sys v ∧ sys.fs.lookup fd ≠ 0 ∧ pointsTo sys.fs fd = some v := by
  rw [ctlPair] at pair
  split at pair
  next => cases pair
  next polls =>
    split at pair
    next => cases pair
    next other =>
      cases pair
      push Not at polls other
      obtain ⟨usedE, poll⟩ := polls
      obtain ⟨used, plain, named⟩ := other
      have table := inv.counted.table
      have suits : ∀ fd : Nat, sys.fs.lookup fd ≠ 0 -> (sys.fs.file (sys.fs.lookup fd)).Suits sys.fs.object := by
        intro fd open_
        rw [lookup_eq table fd] at open_ ⊢
        exact inv.typed fd open_
      have targetE : (sys.fs.file (sys.fs.lookup efd)).target = some (sys.fs.file (sys.fs.lookup efd)).vinode := by
        rw [File.target, poll]
        rfl
      have target : (sys.fs.file (sys.fs.lookup fd)).target = some (sys.fs.file (sys.fs.lookup fd)).vinode :=
        if_pos (kept named)
      obtain ⟨epoll, hereE⟩ := ne_none_iff_exists'.1 (source_alive inv.counted usedE _ targetE)
      obtain ⟨object, here⟩ := ne_none_iff_exists'.1 (source_alive inv.counted used _ target)
      refine ⟨⟨epoll, hereE, (suits efd usedE _ epoll targetE hereE).2 poll⟩, ⟨object, here, fun kind => ?_⟩, used, ?_⟩
      · exact plain ((suits fd used _ object target here).1 kind)
      · rw [pointsTo, if_neg used, target]

theorem Inv.step {next : Sys} (inv : Inv sys) {event : Event} (may : Allowed sys event) (careful : Careful sys event)
    (moved : step sys event = some next) : Inv next := by
  cases event with
  | files event =>
    obtain ⟨fs, ran, rfl⟩ := map_eq_some_iff.1 moved
    cases done : exec sys.fs event with
    | error => simp [Files.step, done, Except.toOption] at ran
    | ok after =>
      simp only [Files.step, done, Except.toOption, some.injEq] at ran
      subst ran
      exact inv.files may careful done
  | ctl efd op fd =>
    rw [Epoll.step, sysEpollCtl_eq inv.counted.table] at moved
    cases moved
    cases pair : ctlPair sys.fs efd fd with
    | none => exact inv
    | some both =>
      obtain ⟨e, v⟩ := both
      obtain ⟨live, vinode, used, points⟩ := ctlPair_some inv pair may
      obtain ⟨room, only⟩ := careful e v pair
      simp only [Epoll.ctl]
      split
      next adds => exact inv.add live vinode used points (room adds)
      split_ifs with deletes
      · exact inv.del live vinode points (only deletes)
      · exact inv

structure Start (sys : Sys) : Prop where
  files : Files.Start sys.fs
  lists : ∀ v k, sys.epollList v k = none

theorem Start.inv (start : Start sys) : Inv sys := by
  have inodes := start.files.inodes
  have noEpoll : ∀ e, ¬ LiveEpoll sys e := by
    rintro e ⟨object, here, kind⟩
    rw [(inodes e object here).1] at kind
    cases kind
  refine ⟨start.files.counted, fun i used addr object target here => ?_, ⟨fun v e _ live => ?_, fun v _ j k _ _ _ => ?_,
    fun v _ k _ e at_ => ?_, fun e live => ?_⟩, fun e live => ?_⟩
  · have free := start.files.uncounted i
    rw [refers_used used, target] at free
    cases free
  · exact absurd live (noEpoll e)
  · exact start.lists v k
  · rw [start.lists v k] at at_
    cases at_
  · exact absurd live (noEpoll e)
  · exact absurd live (noEpoll e)

end

theorem registrations_consistent (sys : Sys)
    (reached : Reachable Start step (fun sys event => Allowed sys event ∧ Careful sys event) sys) :
    Consistent sys := by
  have inv : Inv sys := reached.invariant (fun _ => Start.inv) fun _ _ _ before may moved =>
    before.step may.1 may.2 moved
  exact inv.consistent

theorem reaches_table {sys : Sys} {may : Sys -> Event -> Prop} (narrow : ∀ sys event, may sys event -> Allowed sys event)
    (reached : Reachable Start step may sys) : TableInv sys.fs := by
  induction reached with
  | start first => exact first.files.table
  | @next sys next event _ allowed moved table =>
    cases event with
    | files event =>
      obtain ⟨fs, ran, rfl⟩ := map_eq_some_iff.1 moved
      -- outside the range the call does not come back
      by_cases range : InRange sys.fs event
      · exact ((exec_change table (narrow sys _ allowed) range (step_iff.1 ran)).table table).1
      · obtain ⟨index, escaped⟩ := exec_escapes table (narrow sys _ allowed) range
        simp [Files.step, escaped, Except.toOption] at ran
    | ctl efd op fd =>
      rw [step, sysEpollCtl_eq table] at moved
      cases moved
      rw [ctl_fs]
      exact table

def isFresh (fs : Fs) (alloc : Nat) : Bool := ∀ i < maxFds, fs.filep i ≠ alloc

def mayCall (sys : Sys) : Event -> Bool
  | .files (.pipe wfp rfp wpipe rpipe _) => isFresh sys.fs wfp ∧ isFresh sys.fs rfp ∧ (wfp = 0 ∨ wfp ≠ rfp) ∧
      wpipe ≠ 0 ∧ rpipe ≠ 0 ∧ wpipe ≠ rpipe ∧ sys.fs.object wpipe = none ∧ sys.fs.object rpipe = none
  | .files (.epollCreate alloc epoll) => isFresh sys.fs alloc ∧ epoll ≠ 0 ∧ sys.fs.object epoll = none
  | .files (.dup _ alloc) => alloc ≠ 0 ∧ isFresh sys.fs alloc
  | .files (.close arg) => -2 ^ 31 ≤ arg ∧ arg < 2 ^ 31
  | .files _ => false
  | .ctl _ _ fd => (sys.fs.file (sys.fs.lookup fd)).vinode ≠ 0 -> (sys.fs.file (sys.fs.lookup fd)).type.counted

theorem mayCall_sound {sys : Sys} (table : TableInv sys.fs) {event : Event} (may : mayCall sys event = true) :
    Allowed sys event := by
  cases event with
  | ctl efd op fd =>
    have facts := of_decide_eq_true may
    exact facts
  | files event =>
    cases event with
    | pipe =>
      have facts := of_decide_eq_true may
      exact ⟨table.fresh (of_decide_eq_true facts.1), table.fresh (of_decide_eq_true facts.2.1), facts.2.2⟩
    | epollCreate =>
      have facts := of_decide_eq_true may
      exact ⟨table.fresh (of_decide_eq_true facts.1), facts.2⟩
    | dup =>
      have facts := of_decide_eq_true may
      exact ⟨facts.1, table.fresh (of_decide_eq_true facts.2)⟩
    | close =>
      have facts := of_decide_eq_true may
      exact facts
    | openFile | dup2 | fcntlDupfd | pages => cases may

def booted : Sys := ⟨Files.booted, fun _ => {}, fun _ _ => none⟩

theorem booted_starts : Start booted := ⟨booted_start, fun _ _ => rfl⟩

def polledPipe : List Event := [.files (.pipe 9 10 20 21 true), .files (.epollCreate 11 22), .ctl 5 epollCtlAdd 4]

def polledTwice : List Event :=
  polledPipe ++ [.files (.dup 4 12), .ctl 5 epollCtlAdd 6, .files (.epollCreate 13 23), .ctl 7 epollCtlAdd 4]

def polledSix : List Event :=
  polledPipe ++ [.files (.epollCreate 12 23), .ctl 6 epollCtlAdd 4, .files (.epollCreate 13 24), .ctl 7 epollCtlAdd 4,
    .files (.epollCreate 14 25), .ctl 8 epollCtlAdd 4, .files (.epollCreate 15 26), .ctl 9 epollCtlAdd 4,
    .files (.epollCreate 16 27), .ctl 10 epollCtlAdd 4]

theorem reached_by (events : List Event) {facts : Sys -> Prop} [DecidablePred facts]
    (outcome : (events.foldlM (fun sys event => if mayCall sys event then step sys event else none) booted).any
      (fun sys => facts sys) = true) : ∃ sys, Reachable Start step Allowed sys ∧ facts sys := by
  obtain ⟨sys, ran, holds⟩ := holds_of_any outcome
  refine ⟨sys, (Reachable.start booted_starts).checked (fun sys event reached may => ?_) ran, holds⟩
  exact mayCall_sound (reaches_table (fun _ _ may => may) reached) may

instance (sys : Sys) (e : Nat) : Decidable (LiveEpoll sys e) :=
  decidable_of_iff ((sys.fs.object e).any (fun object => object.kind = .epoll) = true)
    (by simp [LiveEpoll, Option.any_eq_true])

instance (sys : Sys) (v : Nat) : Decidable (LiveVinode sys v) :=
  decidable_of_iff ((sys.fs.object v).any (fun object => object.kind ≠ .epoll) = true)
    (by simp [LiveVinode, Option.any_eq_true])

def isCareful (sys : Sys) : Event -> Bool
  | .files (.close _) => false
  | .files _ => true
  | .ctl efd op fd =>
    match ctlPair sys.fs efd fd with
    | none => true
    | some (e, v) =>
      (op = epollCtlAdd -> (sys.epoll e).fdCount < maxEpollFds - 1 -> freeEntry (sys.epollList v) ≠ none) ∧
        (op = epollCtlDel -> registered sys e v ≤ 1)

theorem isCareful_sound {sys : Sys} {event : Event} (may : mayCall sys event = true)
    (careful : isCareful sys event = true) : Careful sys event := by
  cases event with
  | ctl efd op fd =>
    intro e v pair
    simp only [isCareful, pair] at careful
    exact of_decide_eq_true careful
  | files event =>
    cases event with
    | pipe | epollCreate | dup => exact ⟨trivial, trivial, fun _ dropped => dropped.elim⟩
    | close => cases careful
    | openFile | dup2 | fcntlDupfd | pages => cases may

theorem registrations_consistent_pipe : ∃ sys,
    Reachable Start step (fun sys event => Allowed sys event ∧ Careful sys event) sys ∧
      (sys.epoll 22).fdCount = 1 ∧ occurrences (sys.epollList 21) 22 = 1 ∧ Consistent sys := by
  have outcome : ((polledPipe ++ [Event.ctl 5 epollCtlAdd 3, .ctl 5 epollCtlDel 3]).foldlM (fun sys event =>
      if mayCall sys event && isCareful sys event then step sys event else none) booted).any
      (fun sys => (sys.epoll 22).fdCount = 1 ∧ occurrences (sys.epollList 21) 22 = 1) = true := by
    decide +kernel
  obtain ⟨sys, ran, one, once⟩ := holds_of_any outcome
  have reached : Reachable Start step (fun sys event => Allowed sys event ∧ Careful sys event) sys := by
    refine (Reachable.start booted_starts).checked (fun sys event reached may => ?_) ran
    obtain ⟨allowed, careful⟩ := Bool.and_eq_true_iff.1 may
    exact ⟨mayCall_sound (reaches_table (fun _ _ may => may.1) reached) allowed, isCareful_sound allowed careful⟩
  exact ⟨sys, reached, one, once, registrations_consistent sys reached⟩

theorem registrations_part :
    (∃ sys, Reachable Start step Allowed sys ∧ LiveEpoll sys 22 ∧ (sys.epoll 22).fdCount = 1 ∧
      (sys.epoll 22).fds 0 = 4 ∧ sys.fs.lookup 4 = 0) ∧
    (∃ sys, Reachable Start step Allowed sys ∧ LiveVinode sys 21 ∧ sys.epollList 21 0 = some 22 ∧ ¬ LiveEpoll sys 22) ∧
    (∃ sys, Reachable Start step Allowed sys ∧ LiveVinode sys 21 ∧ LiveEpoll sys 27 ∧
      occurrences (sys.epollList 21) 27 = 0 ∧ registered sys 27 21 = 1) ∧
    ∃ sys, Reachable Start step Allowed sys ∧ LiveVinode sys 21 ∧ LiveEpoll sys 22 ∧
      occurrences (sys.epollList 21) 22 = 0 ∧ registered sys 22 21 = 1 :=
  ⟨reached_by (polledPipe ++ [.files (.close 4)]) (by decide +kernel),
    reached_by (polledPipe ++ [.files (.close 5)]) (by decide +kernel),
    reached_by polledSix (by decide +kernel),
    reached_by (polledTwice ++ [.ctl 5 epollCtlDel 4]) (by decide +kernel)⟩

theorem failed_add_kept : ∃ sys, Reachable Start step Allowed sys ∧ (sys.epoll 27).fdCount = 0 ∧
    ((sysEpollCtl sys 10 epollCtlAdd 4).toOption.any fun out => out.1 = -1 ∧ (out.2.epoll 27).fdCount = 1) = true :=
  reached_by polledSix.dropLast (by decide +kernel)

theorem epoll_ctl_added_pipe : ∃ sys next, sysEpollCtl sys 5 epollCtlAdd 4 = .ok (0, next) ∧
    ∃ e v k, ctlPair sys.fs 5 4 = some (e, v) ∧ k < maxEfdsPerFd ∧ sys.epollList v k = none ∧
      next.epollList = update sys.epollList v (update (sys.epollList v) k (some e)) ∧
      next.epoll = update sys.epoll e ⟨(sys.epoll e).fdCount + 1, update (sys.epoll e).fds (sys.epoll e).fdCount 4⟩ := by
  have added : ∃ sys, Reachable Start step Allowed sys ∧
      ((sysEpollCtl sys 5 epollCtlAdd 4).toOption.any fun out => out.1 = 0) = true :=
    reached_by polledPipe.dropLast (by decide +kernel)
  obtain ⟨sys, _, outcome⟩ := added
  cases ran : sysEpollCtl sys 5 epollCtlAdd 4 with
  | error => simp [ran, Except.toOption] at outcome
  | ok out =>
    obtain ⟨ret, next⟩ := out
    obtain rfl : ret = 0 := by simpa [ran, Except.toOption] using outcome
    exact ⟨sys, next, ran, (epoll_ctl_failure_iff ran).2 rfl le_rfl⟩

end JinyKernel.Epoll
