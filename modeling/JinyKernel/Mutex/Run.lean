import JinyKernel.Shared.Run
import JinyKernel.Mutex.Model

namespace JinyKernel.Mutex

open Function List

-- `depth` counts a task's locks that have returned and are not undone.
structure System where
  sem : Semaphore
  pc : Nat -> Pc
  depth : Nat -> Nat
  holders : List Nat

inductive Event where
  | lock (p : Nat)
  | unlock (p : Nat)
  | move (p : Nat) (killed : Bool)
  | timer
  | delete (p : Nat)

def depthAfter (depth : Nat) : Pc -> Nat
  | .lockDeeper => depth + 1
  | .setRecursive => depth + 1
  | .unlockShallower => depth - 1
  | .signalCount => depth - 1
  | _ => depth

def holdersAfter (p : Nat) (holders : List Nat) : Pc -> Pc -> List Nat
  | .waitSection _, .setOwner => p :: holders
  | .signalCount, _ => holders.erase p
  | _, _ => holders

variable (s : System)

def System.moveTo (p : Nat) (sem : Semaphore) (pc : Pc) : System where
  sem := sem
  pc := update s.pc p pc
  depth := update s.depth p (depthAfter (s.depth p) (s.pc p))
  holders := holdersAfter p s.holders (s.pc p) pc

def step : Event -> Option System
  | .lock p => some { s with pc := update s.pc p .lockOwner }
  | .unlock p => some { s with pc := update s.pc p .unlockOwner }
  | .move p killed => do
      let (sem, pc) ← advance s.sem p killed (s.pc p)
      some (s.moveTo p sem pc)
  | .timer => some { s with sem := { s.sem with waitqueue := (WaitQueue.checkWaitqueue s.sem.waitqueue).2 } }
  | .delete p => some { s with sem := { s.sem with waitqueue := (WaitQueue.delFromMe p s.sem.waitqueue).2 } }

def Start : Prop :=
  ∃ recursiveCount, s = ⟨ipcMutexCreate recursiveCount, fun _ => .out, fun _ => 0, []⟩

def Allowed : Event -> Prop
  | .lock p => p ≠ 0 ∧ s.pc p = .out ∧ s.depth p + 1 < 2 ^ 31
  | .unlock p => s.pc p = .out ∧ 0 < s.depth p
  | .move _ _ => True
  | .timer => True
  | .delete _ => True

structure Held (p : Nat) : Prop where
  holder : p ∈ s.holders
  owner : s.sem.ownerPid = p
  recursive : s.sem.recursiveCount = s.depth p
  locked : 0 < s.depth p
  bounded : s.depth p < 2 ^ 31

structure Outside (p : Nat) : Prop where
  depth : s.depth p = 0
  holder : p ∉ s.holders

def At (p : Nat) : Pc -> Prop
  | .out => Outside s p ∨ Held s p
  | .lockOwner => Outside s p ∨ Held s p ∧ s.depth p + 1 < 2 ^ 31
  | .lockRecursive => Held s p ∧ s.depth p + 1 < 2 ^ 31
  | .lockDeeper => Held s p ∧ s.depth p + 1 < 2 ^ 31
  | .waitCount _ => Outside s p
  | .waitQueued _ => Outside s p
  | .asleep => Outside s p
  | .waitSection _ => Outside s p
  | .setOwner => p ∈ s.holders ∧ s.depth p = 0
  | .setRecursive => p ∈ s.holders ∧ s.depth p = 0 ∧ s.sem.ownerPid = p
  | .unlockOwner => Held s p
  | .unlockRecursive => Held s p
  | .unlockShallower => Held s p ∧ 1 < s.depth p
  | .clearOwner => Held s p ∧ s.depth p = 1
  | .clearRecursive => p ∈ s.holders ∧ s.depth p = 1 ∧ s.sem.ownerPid = 0
  | .signalCount => p ∈ s.holders ∧ s.depth p = 1 ∧ s.sem.ownerPid = 0
  | .signalWakeup => Outside s p

structure Inv : Prop where
  count : s.sem.count + s.holders.length = 1
  natural : 0 ≤ s.sem.count
  owner : s.sem.ownerPid = 0 ∨ s.sem.ownerPid ∈ s.holders
  holder : ∀ p ∈ s.holders, p ≠ 0
  active : ∀ p, s.pc p ≠ .out -> p ≠ 0
  stands : ∀ p, At s p (s.pc p)

variable {s t : System} {q p : Nat} {pc : Pc}

theorem At.frame (stands : At s q pc) (holders : q ∈ t.holders ↔ q ∈ s.holders) (depth : t.depth q = s.depth q)
    (fields : q ∈ s.holders -> t.sem.ownerPid = s.sem.ownerPid ∧ t.sem.recursiveCount = s.sem.recursiveCount) :
    At t q pc := by
  have outside : Outside s q -> Outside t q := fun before =>
    ⟨depth.trans before.depth, fun now => before.holder (holders.1 now)⟩
  have held : Held s q -> Held t q := fun before =>
    ⟨holders.2 before.holder, (fields before.holder).1.trans before.owner,
      by rw [(fields before.holder).2, before.recursive, depth], by rw [depth]; exact before.locked,
      by rw [depth]; exact before.bounded⟩
  cases pc with
  | out => exact stands.imp outside held
  | lockOwner => exact stands.imp outside fun here => ⟨held here.1, by rw [depth]; exact here.2⟩
  | unlockOwner | unlockRecursive => exact held stands
  | waitCount | waitQueued | asleep | waitSection | signalWakeup => exact outside stands
  | setOwner => exact ⟨holders.2 stands.1, depth.trans stands.2⟩
  | lockRecursive | lockDeeper | unlockShallower | clearOwner =>
    exact ⟨held stands.1, by rw [depth]; exact stands.2⟩
  | setRecursive | clearRecursive | signalCount =>
    exact ⟨holders.2 stands.1, depth.trans stands.2.1, (fields stands.1).1.trans stands.2.2⟩

namespace Inv

variable {s t : System} {p : Nat} {pc : Pc}

variable (inv : Inv s)

include inv

theorem standsAt (standing : s.pc p = pc) : At s p pc := standing ▸ inv.stands p

theorem held (out : s.pc p = .out) (locked : 0 < s.depth p) : Held s p := by
  refine (inv.standsAt out).resolve_left fun outside => ?_
  have depth := outside.depth
  omega

theorem alone (first : p ∈ s.holders) (second : q ∈ s.holders) : q = p := by
  have count := inv.count
  have natural := inv.natural
  have few : s.holders.length ≤ 1 := by omega
  generalize s.holders = holders at first second few
  match holders, few with
  | [only], _ => rw [mem_singleton.1 first, mem_singleton.1 second]

theorem moved (pcs : t.pc = update s.pc p pc) (real : p ≠ 0)
    (count : t.sem.count + t.holders.length = 1) (natural : 0 ≤ t.sem.count)
    (owner : t.sem.ownerPid = 0 ∨ t.sem.ownerPid ∈ t.holders) (holder : ∀ q ∈ t.holders, q ≠ 0)
    (depth : ∀ q, q ≠ p -> t.depth q = s.depth q) (holders : ∀ q, q ≠ p -> (q ∈ t.holders ↔ q ∈ s.holders))
    (fields : ∀ q, q ≠ p -> q ∈ s.holders ->
      t.sem.ownerPid = s.sem.ownerPid ∧ t.sem.recursiveCount = s.sem.recursiveCount)
    (stands : At t p pc) : Inv t where
  count := count
  natural := natural
  owner := owner
  holder := holder
  active q busy := by
    by_cases same : q = p
    · rwa [same]
    · rw [pcs, update_of_ne same] at busy
      exact inv.active q busy
  stands q := by
    by_cases same : q = p
    · rwa [same, pcs, update_self]
    · rw [pcs, update_of_ne same]
      exact (inv.stands q).frame (holders q same) (depth q same) (fields q same)

theorem quiet (pcs : t.pc = update s.pc p pc) (real : p ≠ 0)
    (sem : ∃ queue, t.sem = { s.sem with waitqueue := queue }) (depth : t.depth = s.depth)
    (holders : t.holders = s.holders) (stands : At s p pc) : Inv t := by
  obtain ⟨queue, sem⟩ := sem
  apply inv.moved pcs real
  · rw [sem, holders]
    exact inv.count
  · rw [sem]
    exact inv.natural
  · rw [sem, holders]
    exact inv.owner
  · rw [holders]
    exact inv.holder
  · exact fun q _ => by rw [depth]
  · exact fun q _ => by rw [holders]
  · exact fun q _ _ => by rw [sem]; exact ⟨rfl, rfl⟩
  · exact stands.frame (by rw [holders]) (by rw [depth]) (fun _ => by rw [sem]; exact ⟨rfl, rfl⟩)

theorem reads {here : Pc} (standing : s.pc p = here) (busy : here ≠ .out) (queue : WaitQueue.Queue)
    (depth : depthAfter (s.depth p) here = s.depth p) (holders : holdersAfter p s.holders here pc = s.holders)
    (stands : At s p pc) : Inv (s.moveTo p { s.sem with waitqueue := queue } pc) := by
  subst standing
  refine inv.quiet rfl (inv.active p busy) ⟨queue, rfl⟩ ?_ holders stands
  rw [System.moveTo, depth, update_eq_self]

theorem writes {here : Pc} (standing : s.pc p = here) (holder : p ∈ s.holders) {sem : Semaphore}
    (count : sem.count = s.sem.count) (owner : sem.ownerPid = 0 ∨ sem.ownerPid = p)
    (holders : holdersAfter p s.holders here pc = s.holders) (stands : At (s.moveTo p sem pc) p pc) :
    Inv (s.moveTo p sem pc) := by
  subst standing
  refine inv.moved rfl (inv.holder p holder) ?_ ?_ ?_ ?_ (fun q other => update_of_ne other ..) ?_ ?_ stands
  · rw [System.moveTo, holders, count]
    exact inv.count
  · rw [System.moveTo, count]
    exact inv.natural
  · rw [System.moveTo, holders]
    exact owner.imp_right fun mine => by rwa [mine]
  · rw [System.moveTo, holders]
    exact inv.holder
  · exact fun q _ => by rw [System.moveTo, holders]
  · exact fun q other inside => absurd (inv.alone holder inside) other

theorem not_owner (real : p ≠ 0) (outside : Outside s p) : s.sem.ownerPid ≠ p := by
  intro mine
  rcases inv.owner with nobody | holder
  · exact real (mine ▸ nobody)
  · exact outside.holder (mine ▸ holder)

theorem lockOwner (standing : s.pc p = .lockOwner) :
    At s p (if s.sem.ownerPid = p then .lockRecursive else .waitCount lockTimeout) := by
  have real := inv.active p (by simp [standing])
  rcases inv.standsAt standing with outside | held
  · rw [if_neg (inv.not_owner real outside)]
    exact outside
  · rw [if_pos held.1.owner]
    exact held

theorem lockRecursive (standing : s.pc p = .lockRecursive) :
    At s p (if s.sem.recursiveCount ≠ 0 then .lockDeeper else .waitCount lockTimeout) := by
  have held := inv.standsAt standing
  have locked := Held.locked held.1
  rw [if_pos]
  · exact held
  · rw [Held.recursive held.1]
    omega

theorem unlockRecursive (standing : s.pc p = .unlockRecursive) :
    At s p (if s.sem.recursiveCount > 1 then .unlockShallower else .clearOwner) := by
  have held := inv.standsAt standing
  have recursive := Held.recursive held
  have locked := Held.locked held
  split_ifs with more
  · exact ⟨held, by omega⟩
  · exact ⟨held, by omega⟩

theorem take {timeout : WaitQueue.Long} (standing : s.pc p = .waitSection timeout) (free : 0 < s.sem.count) :
    Inv (s.moveTo p { s.sem with count := s.sem.count - 1 } .setOwner) := by
  have outside := inv.standsAt standing
  have real := inv.active p (by simp [standing])
  have count := inv.count
  have free : s.holders = [] := by
    rw [← length_eq_zero_iff]
    omega
  have nobody : s.sem.ownerPid = 0 := by
    have owner := inv.owner
    rw [free] at owner
    exact owner.resolve_right (by simp)
  refine inv.moved rfl real ?_ ?_ (.inl nobody) ?_ (fun q other => update_of_ne other ..) ?_ ?_ ?_
  · simp only [System.moveTo, standing, holdersAfter, free, length_cons, length_nil] at count ⊢
    omega
  · simp only [System.moveTo]
    omega
  · simp [System.moveTo, standing, holdersAfter, free, real]
  · simp [System.moveTo, standing, holdersAfter, free]
  · simp [free]
  · simp [At, System.moveTo, standing, holdersAfter, depthAfter, Outside.depth outside]

theorem signal (standing : s.pc p = .signalCount) :
    Inv (s.moveTo p { s.sem with count := s.sem.count + 1 } .signalWakeup) := by
  obtain ⟨holder, last, nobody⟩ := inv.standsAt standing
  have count := inv.count
  have natural := inv.natural
  have length := length_erase_of_mem holder
  have positive := length_pos_of_mem holder
  have free : s.holders.erase p = [] := by
    rw [← length_eq_zero_iff]
    omega
  have left : (s.moveTo p { s.sem with count := s.sem.count + 1 } .signalWakeup).holders = [] := by
    simp [System.moveTo, standing, holdersAfter, free]
  refine inv.moved rfl (inv.holder p holder) ?_ ?_ (.inl nobody) ?_ (fun q other => update_of_ne other ..)
    ?_ ?_ ⟨?_, ?_⟩
  · rw [left]
    simp only [System.moveTo, length_nil]
    omega
  · simp only [System.moveTo]
    omega
  · simp [left]
  · intro q other
    simp only [left, not_mem_nil, false_iff]
    exact fun inside => other (inv.alone holder inside)
  · exact fun q other inside => absurd (inv.alone holder inside) other
  · simp [System.moveTo, standing, depthAfter, last]
  · simp [left]

end Inv

theorem move_inv (inv : Inv s) {killed : Bool} (moved : step s (.move p killed) = some t) : Inv t := by
  obtain ⟨⟨sem, pc⟩, advanced, done⟩ := Run.bind_iff.1 moved
  have stands := inv.stands p
  cases done
  cases standing : s.pc p <;> rw [standing] at advanced stands
  case out => cases advanced
  case lockOwner =>
    cases advanced
    exact inv.reads standing (by simp) _ rfl rfl (inv.lockOwner standing)
  case lockRecursive =>
    cases advanced
    exact inv.reads standing (by simp) _ rfl rfl (inv.lockRecursive standing)
  case lockDeeper =>
    cases advanced
    obtain ⟨held, more⟩ := stands
    refine inv.writes standing held.holder rfl (.inr held.owner) rfl (.inr ⟨?_, held.owner, ?_, ?_, ?_⟩)
    · simpa [System.moveTo, standing, holdersAfter] using held.holder
    · rw [System.moveTo, held.recursive, toInt_eq (by omega) (by omega)]
      simp [standing, depthAfter]
    all_goals
      simp only [System.moveTo, standing, depthAfter, update_self]
      omega
  case waitCount =>
    have outside : Outside s p := stands
    cases advanced
    refine inv.reads standing (by simp) _ rfl rfl ?_
    split_ifs <;> exact outside
  case waitQueued =>
    cases advanced
    exact inv.reads standing (by simp) _ rfl rfl stands
  case asleep =>
    have outside : Outside s p := stands
    simp only [advance] at advanced
    split_ifs at advanced
    cases advanced
    exact inv.reads standing (by simp) _ rfl rfl outside
  case waitSection timeout =>
    have outside : Outside s p := stands
    simp only [advance] at advanced
    split_ifs at advanced with free <;> cases advanced
    · exact inv.take standing free
    all_goals exact inv.reads standing (by simp) _ rfl rfl outside
  case setOwner =>
    cases advanced
    obtain ⟨holder, depth⟩ := stands
    refine inv.writes standing holder rfl (.inr rfl) rfl ?_
    simp [At, System.moveTo, standing, holdersAfter, depthAfter, holder, depth]
  case setRecursive =>
    cases advanced
    obtain ⟨holder, depth, owner⟩ := stands
    refine inv.writes standing holder rfl (.inr owner) rfl (.inr ⟨?_, owner, ?_, ?_, ?_⟩)
    · simpa [System.moveTo, standing, holdersAfter] using holder
    all_goals simp [System.moveTo, standing, depthAfter, depth]
  case unlockOwner =>
    cases advanced
    have held : Held s p := stands
    refine inv.reads standing (by simp) _ rfl rfl ?_
    rw [if_pos held.owner]
    exact held
  case unlockRecursive =>
    cases advanced
    exact inv.reads standing (by simp) _ rfl rfl (inv.unlockRecursive standing)
  case unlockShallower =>
    cases advanced
    obtain ⟨held, more⟩ := stands
    have bounded := held.bounded
    refine inv.writes standing held.holder rfl (.inr held.owner) rfl (.inr ⟨?_, held.owner, ?_, ?_, ?_⟩)
    · simpa [System.moveTo, standing, holdersAfter] using held.holder
    · rw [System.moveTo, held.recursive, toInt_eq (by omega) (by omega)]
      simp only [standing, depthAfter, update_self]
      omega
    all_goals
      simp only [System.moveTo, standing, depthAfter, update_self]
      omega
  case clearOwner =>
    cases advanced
    obtain ⟨held, last⟩ := stands
    refine inv.writes standing held.holder rfl (.inl rfl) rfl ?_
    simp [At, System.moveTo, standing, holdersAfter, depthAfter, held.holder, last]
  case clearRecursive =>
    cases advanced
    obtain ⟨holder, last, nobody⟩ := stands
    refine inv.writes standing holder rfl (.inl nobody) rfl ?_
    simp [At, System.moveTo, standing, holdersAfter, depthAfter, holder, last, nobody]
  case signalCount =>
    cases advanced
    exact inv.signal standing
  case signalWakeup =>
    cases advanced
    exact inv.reads standing (by simp) _ rfl rfl (.inl stands)

theorem start_inv (start : Start s) : Inv s := by
  obtain ⟨recursiveCount, rfl⟩ := start
  constructor <;> simp [ipcMutexCreate, At]
  exact fun p => .inl ⟨rfl, by simp⟩

theorem step_inv (s : System) (event : Event) (t : System) (inv : Inv s) (may : Allowed s event)
    (stepped : step s event = some t) : Inv t := by
  cases event with
  | lock p =>
    obtain ⟨real, out, more⟩ := may
    have stands := inv.standsAt out
    cases stepped
    exact inv.quiet rfl real ⟨_, rfl⟩ rfl rfl (stands.imp_right fun held => ⟨held, more⟩)
  | unlock p =>
    have held := inv.held may.1 may.2
    cases stepped
    exact inv.quiet rfl (inv.holder p held.holder) ⟨_, rfl⟩ rfl rfl held
  | move p killed => exact move_inv inv stepped
  | timer | delete p =>
    cases stepped
    exact { inv with stands := fun q => (inv.stands q).frame Iff.rfl rfl fun _ => ⟨rfl, rfl⟩ }

theorem At.holder (stands : At s p pc) (locked : 0 < s.depth p) : p ∈ s.holders := by
  have inside : ¬ Outside s p := fun outside => by
    have depth := outside.depth
    omega
  cases pc with
  | out => exact (stands.resolve_left inside).holder
  | lockOwner => exact (stands.resolve_left inside).1.holder
  | unlockOwner | unlockRecursive => exact Held.holder stands
  | waitCount | waitQueued | asleep | waitSection | signalWakeup => exact absurd stands inside
  | setOwner | setRecursive | clearRecursive | signalCount => exact stands.1
  | lockRecursive | lockDeeper | unlockShallower | clearOwner => exact stands.1.holder

theorem mutex_exclusion {s : System} (reached : Run.Reachable Start step Allowed s) :
    s.sem.count + s.holders.length = 1 ∧ s.holders.length ≤ 1 ∧
      (∀ p q, 0 < s.depth p -> 0 < s.depth q -> p = q) ∧
      ∀ p, s.pc p = .out -> 0 < s.depth p -> s.sem.ownerPid = p ∧ s.sem.recursiveCount = s.depth p := by
  have inv := reached.invariant (fun _ => start_inv) step_inv
  have count := inv.count
  have natural := inv.natural
  refine ⟨count, by omega, fun p q first second => ?_, fun p out locked => ?_⟩
  · exact inv.alone ((inv.stands q).holder second) ((inv.stands p).holder first)
  · have held := inv.held out locked
    exact ⟨held.owner, held.recursive⟩

instance (s : System) : (event : Event) -> Decidable (Allowed s event)
  | .lock p => inferInstanceAs (Decidable (p ≠ 0 ∧ s.pc p = .out ∧ s.depth p + 1 < 2 ^ 31))
  | .unlock p => inferInstanceAs (Decidable (s.pc p = .out ∧ 0 < s.depth p))
  | .move _ _ | .timer | .delete _ => .isTrue trivial

def unlocked : System := ⟨ipcMutexCreate 0, fun _ => .out, fun _ => 0, []⟩

def moves (p count : Nat) : List Event := List.replicate count (.move p false)

-- Task 5 holds the mutex twice and task 6 sleeps for it.
def contention : List Event := .lock 5 :: moves 5 5 ++ .lock 6 :: moves 6 3 ++ .lock 5 :: moves 5 3

def contended : System := (contention.foldlM step unlocked).getD unlocked

theorem mutex_exclusion_contended :
    contended.pc 6 = .asleep ∧ contended.depth 5 = 2 ∧ contended.sem.count + contended.holders.length = 1 ∧
      contended.sem.ownerPid = 5 ∧ contended.sem.recursiveCount = contended.depth 5 := by
  have reached : Run.Reachable Start step Allowed contended := by
    have start : Run.Reachable Start step Allowed unlocked := .start ⟨0, rfl⟩
    have ran : contention.foldlM (fun s event => if decide (Allowed s event) then step s event else none) unlocked =
        some contended := rfl
    exact start.checked (fun _ _ _ => of_decide_eq_true) ran
  have exclusion := mutex_exclusion reached
  exact ⟨by decide, by decide, exclusion.1, exclusion.2.2.2 5 (by decide) (by decide)⟩

end JinyKernel.Mutex
