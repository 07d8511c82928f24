import JinyKernel.Sched.Located
import JinyKernel.Shared.Run

namespace JinyKernel.Sched

open Function

section

variable {maxCpus : Nat} {state : State} {loc : Nat -> Loc} {cpuid p : Nat}

theorem Located.loose (located : Located maxCpus state loc) (loose : loc p = .nowhere) :
    (state.tasks p).currentCpu = noCpu ∧ (state.tasks p).queued = false := by
  have shows := (located.seen p).shows
  rw [loose] at shows
  exact ⟨shows.seat, shows.list⟩

variable {target next : Nat} {argCpuid : Int}

theorem addToRunqueue_eq {chosen : State} {myCpuid : Nat}
    (choice : chooseCpu maxCpus state myCpuid p argCpuid = some (target, chosen))
    (loose : (chosen.tasks p).currentCpu = noCpu ∧ (chosen.tasks p).queued = false) :
    addToRunqueue maxCpus state myCpuid p argCpuid =
      some ((chosen.enqueue target p).runQueueLength target - 1, chosen.enqueue target p) := by
  simp [addToRunqueue, choice, loose, guard]

theorem Located.addToRunqueue (located : Located maxCpus state loc) (loose : loc p = .nowhere)
    (notIdle : ∀ other < maxCpus, state.idleTask other ≠ p) (inside : cpuid < maxCpus)
    (arg : argCpuid = -1 ∨ argCpuid = -99) :
    ∃ ret next target, Sched.addToRunqueue maxCpus state cpuid p argCpuid = some (ret, next) ∧
      Located maxCpus next (update loc p (.queue target)) := by
  have shows := (located.seen p).shows
  have home := (located.seen p).home.allocated
  rcases arg with rfl | rfl
  · by_cases active : state.active (state.tasks p).allocatedCpu = true
    · have choice : chooseCpu maxCpus state cpuid p (-1) = some ((state.tasks p).allocatedCpu, state) := by
        simp [chooseCpu, Nat.not_le.2 home, active]
      exact ⟨_, _, _, addToRunqueue_eq choice (located.loose loose), located.enqueue loose notIdle _⟩
    -- the task moves to processor 0 when its own is not active
    have choice : chooseCpu maxCpus state cpuid p (-1) =
        some (0, state.setTask p { state.tasks p with allocatedCpu := 0 }) := by
      simp [chooseCpu, Nat.not_le.2 home, active]
    have moved : Located maxCpus (state.setTask p { state.tasks p with allocatedCpu := 0 }) loc := by
      refine located.retune { shows with }
        ⟨Nat.zero_lt_of_lt inside, (located.seen p).home.stick⟩ ?_
      rintro ⟨other, there, isIdle⟩
      exact absurd isIdle (notIdle other there)
    exact ⟨_, _, _, addToRunqueue_eq choice (moved.loose loose), moved.enqueue loose notIdle 0⟩
  · exact ⟨_, _, cpuid, addToRunqueue_eq rfl (located.loose loose), located.enqueue loose notIdle cpuid⟩

theorem Located.delFromRunqueue (located : Located maxCpus state loc) (inside : target < maxCpus)
    (arg : argCpuid = -99 ∧ target = cpuid ∨ argCpuid = target) {p : Option Nat}
    (listed : ∀ q, p = some q -> q ∈ state.runQueue target) :
    Sched.delFromRunqueue maxCpus state cpuid p argCpuid = some (none, state) ∨
      ∃ q ∈ state.runQueue target, Sched.delFromRunqueue maxCpus state cpuid p argCpuid =
        some (some q, state.unlink target q) := by
  have chosen : (if argCpuid = -99 then (cpuid : Int) else argCpuid) = target := by
    rcases arg with ⟨rfl, rfl⟩ | rfl
    · rfl
    · rw [if_neg (by omega)]
  have bound : (0 : Int) ≤ target ∧ (target : Int) < maxCpus := by omega
  simp only [Sched.delFromRunqueue, chosen, if_pos bound, Int.toNat_natCast, located.lengths]
  cases queue : state.runQueue target with
  | nil => exact .inl rfl
  | cons first rest =>
    rw [queue] at listed
    cases p with
    | none => exact .inr ⟨first, List.mem_cons_self, rfl⟩
    | some q => exact .inr ⟨q, listed q rfl, rfl⟩

structure Finds (maxCpus : Nat) (state : State) (loc : Nat -> Loc) (cpuid : Nat) (found : Option Nat) (after : State)
    (afterLoc : Nat -> Loc) : Prop where
  located : Located maxCpus after afterLoc
  current : after.current = state.current
  idleTask : after.idleTask = state.idleTask
  prev : after.tasks (state.current cpuid) = state.tasks (state.current cpuid)
  prevLoc : afterLoc (state.current cpuid) = loc (state.current cpuid)
  next : ∀ p, found = some p -> p = state.idleTask cpuid ∨
    afterLoc p = .nowhere ∧ ∀ other < maxCpus, state.idleTask other ≠ p

theorem Located.pickNext (located : Located maxCpus state loc) (inside : cpuid < maxCpus) :
    ∃ found after afterLoc, Sched.pickNext maxCpus state cpuid = some (found, after) ∧
      Finds maxCpus state loc cpuid found after afterLoc := by
  have seated := located.seated cpuid inside
  by_cases inactive : cpuid ≠ 0 ∧ state.active cpuid = false
  · refine ⟨some (state.idleTask cpuid), state, loc, if_pos inactive, located, rfl, rfl, rfl, rfl, ?_⟩
    rintro p same
    exact .inl (Option.some.inj same).symm
  rw [Sched.pickNext, if_neg inactive]
  have unnamed : ∀ q, (none : Option Nat) = some q -> q ∈ state.runQueue cpuid := by simp
  rcases located.delFromRunqueue inside (.inl ⟨rfl, rfl⟩) unnamed with empty | ⟨p, listed, taken⟩
  · refine ⟨none, state, loc, ?_, located, rfl, rfl, rfl, rfl, by simp⟩
    rw [empty]
    rfl
  have here := located.listed.1 listed
  have apart : state.current cpuid ≠ p := by
    rintro rfl
    rw [here] at seated
    cases seated
  have notIdle (other : Nat) (there : other < maxCpus) : state.idleTask other ≠ p :=
    located.not_idle there (by simp [here])
  have unlinked := located.unlink listed
  have resting : update loc p Loc.nowhere p = .nowhere := update_self ..
  simp only [taken, Run.some_bind, dismiss]
  by_cases bound : ((state.unlink cpuid p).tasks p).stickToCpu ≠ noCpu ∧
      ((state.unlink cpuid p).tasks p).stickToCpu ≠ cpuid
  · have home := (unlinked.seen p).home.stick.resolve_left bound.1
    have shows := (unlinked.seen p).shows
    have tuned : Located maxCpus ((state.unlink cpuid p).setTask p
        { (state.unlink cpuid p).tasks p with allocatedCpu := ((state.unlink cpuid p).tasks p).stickToCpu })
        (update loc p .nowhere) := by
      refine unlinked.retune { shows with }
        ⟨home, (unlinked.seen p).home.stick⟩ ?_
      rintro ⟨other, there, isIdle⟩
      exact absurd isIdle (notIdle other there)
    have queued := tuned.enqueue resting notIdle cpuid
    refine ⟨none, _, _, ?_, queued, rfl, rfl, ?_, ?_, by simp⟩
    · rw [if_pos bound, addToRunqueue_eq rfl (tuned.loose resting)]
      rfl
    · simp [State.enqueue, State.setTask, State.unlink, apart]
    · simp [apart]
  · refine ⟨some p, _, _, if_neg bound, unlinked, rfl, rfl, ?_, ?_, ?_⟩
    · simp [State.setTask, State.unlink, apart]
    · simp [apart]
    · rintro other same
      cases same
      exact .inr ⟨resting, notIdle⟩

theorem switchTo_enqueue {prev : Nat} (apart : prev ≠ next) :
    ((state.setTask prev { state.tasks prev with currentCpu := noCpu }).enqueue cpuid prev).switchTo cpuid prev next =
      (state.switchTo cpuid prev next).enqueue cpuid prev := by
  simp only [State.switchTo, State.enqueue, State.setTask, update_self, update_of_ne apart,
    update_of_ne (Ne.symm apart), State.mk.injEq, and_true]
  funext q
  by_cases isPrev : q = prev
  · simp [isPrev]
  · by_cases isNext : q = next
    · simp [isNext, Ne.symm apart]
    · simp [isPrev, isNext]

structure Takes (maxCpus : Nat) (state : State) (loc : Nat -> Loc) (cpuid next : Nat) : Prop where
  loose : loc next = .nowhere
  idle : ∀ other < maxCpus, state.idleTask other = next -> other = cpuid

variable (located : Located maxCpus state loc) (inside : cpuid < maxCpus)

include located inside

theorem Located.seat_cases : loc (state.current cpuid) = .cpu cpuid ∨ loc (state.current cpuid) = .leaving cpuid := by
  have seated := located.seated cpuid inside
  cases here : loc (state.current cpuid) <;> rw [here] at seated
  case cpu => exact .inl (congrArg Loc.cpu (Option.some.inj seated))
  case leaving => exact .inr (congrArg Loc.leaving (Option.some.inj seated))
  all_goals cases seated

theorem Located.idle_home {other : Nat} (onCpu : loc (state.idleTask cpuid) = .cpu other) : cpuid = other := by
  rcases (located.idle inside).1 with running | resting
  · exact Loc.cpu.inj (running.symm.trans onCpu)
  · cases resting.symm.trans onCpu

theorem Located.takes_idle
    (apart : state.current cpuid ≠ state.idleTask cpuid) : Takes maxCpus state loc cpuid (state.idleTask cpuid) where
  loose := by
    rcases (located.idle inside).1 with running | resting
    · have seat := ((located.seen (state.idleTask cpuid)).seat cpuid (by rw [running]; rfl)).2
      exact absurd seat apart
    · exact resting
  idle other there same := located.distinct other there cpuid inside same

theorem Located.idle_running (fixed : ¬ (state.tasks (state.idleTask cpuid)).state &&& taskNonpreemptive ≠ 0) :
    (state.tasks (state.idleTask cpuid)).state = taskRunning :=
  (located.idle inside).2.resolve_right fixed

theorem Located.putBack (takes : Takes maxCpus state loc cpuid next) :
    ∃ after nextLoc, Sched.putBack maxCpus state cpuid (state.current cpuid) = some after ∧
      Located maxCpus (after.switchTo cpuid (state.current cpuid) next) nextLoc := by
  have seated := located.seated cpuid inside
  have switched := located.switchTo inside takes.loose takes.idle
  have shows := (located.seen (state.current cpuid)).shows
  by_cases dead : (state.tasks (state.current cpuid)).state = taskDead
  · exact ⟨state, _, if_pos dead, switched⟩
  by_cases running : state.current cpuid ≠ state.idleTask cpuid ∧
      (state.tasks (state.current cpuid)).state = taskRunning
  · have onCpu : loc (state.current cpuid) = .cpu cpuid := by
      refine (located.seat_cases inside).resolve_right fun leaving => ?_
      have blocked := shows.blocked _ leaving
      rw [running.2] at blocked
      cases blocked
    have unqueued : (state.tasks (state.current cpuid)).queued = false := by
      rw [shows.list, onCpu]
      rfl
    have apart : state.current cpuid ≠ next := by
      intro same
      rw [same, takes.loose] at onCpu
      cases onCpu
    have notIdle (other : Nat) (there : other < maxCpus) : state.idleTask other ≠ state.current cpuid := by
      intro same
      obtain rfl := located.idle_home there (same ▸ onCpu)
      exact running.1 same.symm
    have queued := switched.enqueue (by simp [onCpu]) notIdle cpuid
    rw [← switchTo_enqueue apart] at queued
    refine ⟨_, _, ?_, queued⟩
    rw [Sched.putBack, if_neg dead, if_pos running, addToRunqueue_eq rfl (by simp [State.setTask, unqueued])]
    simp [unqueued, guard]
  · refine ⟨state, _, ?_, switched⟩
    rw [Sched.putBack, if_neg dead, if_neg running]

theorem Located.schedule :
    ∃ next nextLoc, Sched.schedule maxCpus state cpuid = some next ∧ Located maxCpus next nextLoc := by
  by_cases fixed : (state.tasks (state.current cpuid)).state &&& taskNonpreemptive ≠ 0
  · exact ⟨state, loc, if_pos fixed, located⟩
  obtain ⟨found, after, afterLoc, picked, finds⟩ := located.pickNext inside
  simp only [Sched.schedule, if_neg fixed, picked, Run.some_bind]
  have current : after.current cpuid = state.current cpuid := congrFun finds.current cpuid
  have idleTask : after.idleTask cpuid = state.idleTask cpuid := congrFun finds.idleTask cpuid
  have seated := finds.located.seated cpuid inside
  rw [← finds.prev, ← current] at fixed
  rw [← current]
  generalize chosen : found.getD (if (after.tasks (after.current cpuid)).state = taskRunning then after.current cpuid
    else after.idleTask cpuid) = next
  by_cases same : after.current cpuid = next
  · have running : (after.tasks (after.current cpuid)).state = taskRunning := by
      by_contra stopped
      rw [if_neg stopped] at chosen
      have notIdle : after.current cpuid ≠ after.idleTask cpuid := by
        intro isIdle
        rw [isIdle] at fixed stopped
        exact stopped (finds.located.idle_running inside fixed)
      cases found with
      | none => exact notIdle (same.trans chosen.symm)
      | some p =>
        rw [Option.getD_some] at chosen
        subst chosen
        rcases finds.next _ rfl with isIdle | ⟨nowhere, -⟩
        · exact notIdle (same.trans (isIdle.trans idleTask.symm))
        · rw [same, nowhere] at seated
          cases seated
    exact ⟨after, afterLoc, by rw [if_pos same, if_pos running], finds.located⟩
  have takes : Takes maxCpus after afterLoc cpuid next := by
    cases found with
    | none =>
      split_ifs at chosen with running
      · exact absurd chosen same
      · cases chosen
        exact finds.located.takes_idle inside same
    | some p =>
      rw [Option.getD_some] at chosen
      subst chosen
      rcases finds.next _ rfl with isIdle | ⟨nowhere, notIdle⟩
      · rw [← idleTask] at isIdle
        subst isIdle
        exact finds.located.takes_idle inside same
      · refine ⟨nowhere, fun other there isIdle => ?_⟩
        rw [finds.idleTask] at isIdle
        exact absurd isIdle (notIdle other there)
  obtain ⟨back, nextLoc, put, switched⟩ := finds.located.putBack inside takes
  refine ⟨_, nextLoc, ?_, switched⟩
  rw [if_neg same, put]
  rfl

theorem Located.on_cpu (free : state.schedLock cpuid = false) : loc (state.current cpuid) = .cpu cpuid := by
  refine (located.seat_cases inside).resolve_right fun leaving => ?_
  have locked := (located.seen _).locked _ leaving
  rw [free] at locked
  cases locked

theorem Located.waitInternal
    (free : state.schedLock cpuid = false) (notIdle : state.current cpuid ≠ state.idleTask cpuid)
    (preemptive : (state.tasks (state.current cpuid)).state ≠ taskNonpreemptive) :
    ∃ next, Sched.waitInternal state cpuid = some next ∧
      Located maxCpus next (update loc (state.current cpuid) (.leaving cpuid)) := by
  have shows := (located.seen (state.current cpuid)).shows
  have home := (located.seen (state.current cpuid)).home
  have onCpu := located.on_cpu inside free
  rw [onCpu] at shows
  refine ⟨_, if_neg preemptive, ?_⟩
  have filed := located.filed
  rw [← update_eq_self (state.current cpuid) fun q => (loc q).list, onCpu] at filed
  have shown : Shows { state.tasks (state.current cpuid) with state := taskInterruptible, waiting := true }
      (.leaving cpuid) := ⟨shows.seat, shows.list, rfl, fun _ _ => rfl⟩
  refine located.move shown ⟨home.allocated, home.stick⟩ (by simp [onCpu])
    (fun other locked => ?_) (fun other going => ?_) (fun other there isIdle => ?_) filed located.lengths
  · by_cases here : other = cpuid
    · simp [here]
    · simpa [here] using locked
  · cases going
    simp
  · obtain rfl := located.idle_home there (isIdle ▸ onCpu)
    exact absurd isIdle.symm notIdle

end

inductive Event where
  | add (cpuid p : Nat) (argCpuid : Int)
  | del (cpuid : Nat) (p : Option Nat) (argCpuid : Int)
  | wakeup (cpuid p : Nat)
  | wait (cpuid : Nat)
  | schedule (cpuid : Nat)

def step (maxCpus : Nat) (state : State) : Event -> Option State
  | .add cpuid p argCpuid => (addToRunqueue maxCpus state cpuid p argCpuid).map Prod.snd
  | .del cpuid p argCpuid => (delFromRunqueue maxCpus state cpuid p argCpuid).map Prod.snd
  | .wakeup cpuid p => wakeup maxCpus state cpuid p
  | .wait cpuid => waitInternal state cpuid
  | .schedule cpuid => schedule maxCpus state cpuid

structure Loose (maxCpus : Nat) (state : State) (p : Nat) : Prop where
  resting : ∀ cpuid < maxCpus, state.current cpuid ≠ p
  unqueued : (state.tasks p).queued = false
  awake : (state.tasks p).waiting = false
  notIdle : ∀ cpuid < maxCpus, state.idleTask cpuid ≠ p

def Unlocked (state : State) : Prop := ∀ cpuid, state.schedLock cpuid = false

-- `wait_internal` and `wakeup` hold `g_global_lock`, and the idle tasks never wait.
def Allowed (maxCpus : Nat) (state : State) : Event -> Prop
  | .add cpuid p argCpuid => cpuid < maxCpus ∧ Loose maxCpus state p ∧ (argCpuid = -1 ∨ argCpuid = -99)
  | .del cpuid p argCpuid => ∃ target < maxCpus, (argCpuid = -99 ∧ target = cpuid ∨ argCpuid = target) ∧
      ∀ q, p = some q -> q ∈ state.runQueue target
  | .wakeup cpuid p => cpuid < maxCpus ∧ Unlocked state ∧ (state.tasks p).waiting = true
  | .wait cpuid => cpuid < maxCpus ∧ Unlocked state ∧ state.current cpuid ≠ state.idleTask cpuid ∧
      (state.tasks (state.current cpuid)).state ≠ taskNonpreemptive
  | .schedule cpuid => cpuid < maxCpus

variable {maxCpus p : Nat} {state : State} {loc : Nat -> Loc}

section

variable (located : Located maxCpus state loc)

include located

theorem Located.nowhere (loose : Loose maxCpus state p) : loc p = .nowhere := by
  have shows := (located.seen p).shows
  have standing (cpuid : Nat) : (loc p).seat ≠ some cpuid := by
    intro sits
    obtain ⟨inside, here⟩ := (located.seen p).seat cpuid sits
    exact loose.resting cpuid inside here
  have unqueued := shows.list.symm.trans loose.unqueued
  have awake := shows.waits.symm.trans loose.awake
  cases here : loc p with
  | cpu cpuid | leaving cpuid => exact absurd (by rw [here]; rfl) (standing cpuid)
  | queue cpuid =>
    rw [here] at unqueued
    cases unqueued
  | asleep =>
    rw [here] at awake
    cases awake
  | nowhere => rfl

theorem Located.asleep (unlocked : Unlocked state) (waiting : (state.tasks p).waiting = true) : loc p = .asleep := by
  have waits := (located.seen p).shows.waits.symm.trans waiting
  cases here : loc p with
  | asleep => rfl
  | leaving cpuid =>
    have locked := (located.seen p).locked cpuid here
    rw [unlocked cpuid] at locked
    cases locked
  | cpu cpuid | queue cpuid =>
    rw [here] at waits
    cases waits
  | nowhere =>
    rw [here] at waits
    cases waits

theorem Located.wakeup {cpuid : Nat} (inside : cpuid < maxCpus) (asleep : loc p = .asleep) :
    ∃ next nextLoc, Sched.wakeup maxCpus state cpuid p = some next ∧ Located maxCpus next nextLoc := by
  have shows := (located.seen p).shows
  have home := (located.seen p).home
  rw [asleep] at shows
  have notIdle (other : Nat) (there : other < maxCpus) : state.idleTask other ≠ p :=
    located.not_idle there (by simp [asleep])
  have shown : Shows { state.tasks p with waiting := false } .nowhere := ⟨shows.seat, shows.list, rfl, by simp⟩
  have filed := located.filed
  rw [← update_eq_self p fun q => (loc q).list, asleep] at filed
  have removed : Located maxCpus (state.setTask p { state.tasks p with waiting := false })
      (update loc p .nowhere) :=
    located.move shown ⟨home.allocated, home.stick⟩ (by simp [asleep]) (fun _ => id) (by simp)
      (fun other there isIdle => absurd isIdle (notIdle other there)) filed located.lengths
  obtain ⟨ret, next, target, added, queued⟩ := removed.addToRunqueue (update_self ..) notIdle inside (.inl rfl)
  refine ⟨next, _, ?_, queued⟩
  have unqueued := shows.list
  rw [Sched.wakeup, if_neg (by simp [unqueued]), scTaskAssignToCpu, added]
  rfl

theorem Located.step {event : Event} (allowed : Allowed maxCpus state event) :
    ∃ next nextLoc, step maxCpus state event = some next ∧ Located maxCpus next nextLoc := by
  cases event with
  | add cpuid p argCpuid =>
    obtain ⟨inside, loose, arg⟩ := allowed
    obtain ⟨ret, next, target, added, queued⟩ :=
      located.addToRunqueue (located.nowhere loose) loose.notIdle inside arg
    exact ⟨next, _, by simp [Sched.step, added], queued⟩
  | del cpuid p argCpuid =>
    obtain ⟨target, inside, arg, listed⟩ := allowed
    rcases located.delFromRunqueue inside arg listed with miss | ⟨q, queued, taken⟩
    · exact ⟨state, loc, by simp [Sched.step, miss], located⟩
    · exact ⟨_, _, by simp [Sched.step, taken], located.unlink queued⟩
  | wakeup cpuid p =>
    obtain ⟨inside, unlocked, waiting⟩ := allowed
    exact located.wakeup inside (located.asleep unlocked waiting)
  | wait cpuid =>
    obtain ⟨inside, unlocked, notIdle, preemptive⟩ := allowed
    obtain ⟨next, waited, after⟩ := located.waitInternal inside (unlocked cpuid) notIdle preemptive
    exact ⟨next, _, waited, after⟩
  | schedule cpuid => exact located.schedule allowed

end

structure Start (maxCpus : Nat) (state : State) : Prop where
  current : state.current = state.idleTask
  distinct : ∀ cpuid < maxCpus, ∀ other < maxCpus, state.idleTask cpuid = state.idleTask other -> cpuid = other
  idle : ∀ cpuid < maxCpus, (state.tasks (state.idleTask cpuid)).currentCpu = cpuid ∧
    (state.tasks (state.idleTask cpuid)).state = taskRunning
  fresh : ∀ p, (∀ cpuid < maxCpus, state.idleTask cpuid ≠ p) -> (state.tasks p).currentCpu = noCpu
  links : ∀ p, (state.tasks p).queued = false ∧ (state.tasks p).waiting = false
  homes : ∀ p, Homed maxCpus (state.tasks p)
  empty : ∀ cpuid, state.runQueue cpuid = [] ∧ state.runQueueLength cpuid = 0
  unlocked : Unlocked state

theorem Start.located (start : Start maxCpus state) : ∃ loc, Located maxCpus state loc := by
  let loc (p : Nat) : Loc :=
    if idle : ∃ cpuid < maxCpus, state.idleTask cpuid = p then .cpu idle.choose else .nowhere
  have idleLoc (cpuid : Nat) (inside : cpuid < maxCpus) : loc (state.idleTask cpuid) = .cpu cpuid := by
    have idle : ∃ other < maxCpus, state.idleTask other = state.idleTask cpuid := ⟨cpuid, inside, rfl⟩
    have same := start.distinct _ idle.choose_spec.1 cpuid inside idle.choose_spec.2
    simp [loc, dif_pos idle, same]
  have placed (p : Nat) : (∃ cpuid < maxCpus, state.idleTask cpuid = p ∧ loc p = .cpu cpuid) ∨
      (∀ cpuid < maxCpus, state.idleTask cpuid ≠ p) ∧ loc p = .nowhere := by
    by_cases idle : ∃ cpuid < maxCpus, state.idleTask cpuid = p
    · obtain ⟨cpuid, inside, rfl⟩ := idle
      exact .inl ⟨cpuid, inside, rfl, idleLoc cpuid inside⟩
    · exact .inr ⟨fun cpuid inside same => idle ⟨cpuid, inside, same⟩, dif_neg idle⟩
  refine ⟨loc, ?_⟩
  constructor
  case seen =>
    intro p
    obtain ⟨unqueued, awake⟩ := start.links p
    rcases placed p with ⟨cpuid, inside, rfl, here⟩ | ⟨other, here⟩ <;> rw [here]
    · obtain ⟨seat, running⟩ := start.idle cpuid inside
      refine ⟨⟨seat, unqueued, awake, by simp⟩, start.homes _, fun other sits => ?_, by simp,
        fun other there isIdle => ?_⟩
      · cases sits
        exact ⟨inside, by rw [start.current]⟩
      · rw [start.distinct other there cpuid inside isIdle]
        exact ⟨.inl rfl, .inl running⟩
    · exact ⟨⟨start.fresh p other, unqueued, awake, by simp⟩, start.homes p, by simp, by simp,
        fun cpuid inside isIdle => absurd isIdle (other cpuid inside)⟩
  case seated =>
    intro cpuid inside
    rw [start.current, idleLoc cpuid inside]
    rfl
  case filed =>
    refine ⟨fun cpuid => by rw [(start.empty cpuid).1]; exact List.nodup_nil, fun p cpuid => ?_⟩
    rw [(start.empty cpuid).1]
    rcases placed p with ⟨_, _, _, here⟩ | ⟨-, here⟩ <;> simp [here]
  case lengths =>
    intro cpuid
    rw [(start.empty cpuid).1, (start.empty cpuid).2]
    rfl
  case distinct => exact start.distinct

abbrev Reaches (maxCpus : Nat) (state : State) : Prop :=
  Run.Reachable (Start maxCpus) (step maxCpus) (Allowed maxCpus) state

theorem Reaches.located (reached : Reaches maxCpus state) : (∃ loc, Located maxCpus state loc) ∧
      ∀ event, Allowed maxCpus state event -> (step maxCpus state event).isSome := by
  refine Run.Reachable.progress (fun _ start => start.located) ?_ reached
  rintro before event ⟨loc, located⟩ allowed
  obtain ⟨next, nextLoc, moved, after⟩ := located.step allowed
  exact ⟨next, moved, nextLoc, after⟩

theorem run_queues_consistent (maxCpus : Nat) (state : State) (reached : Reaches maxCpus state) :
    (∀ cpuid, state.runQueueLength cpuid = (state.runQueue cpuid).length) ∧
    (∀ cpuid, (state.runQueue cpuid).Nodup) ∧
    (∀ p cpuid other, p ∈ state.runQueue cpuid -> p ∈ state.runQueue other -> cpuid = other) ∧
    (∀ cpuid < maxCpus, ∀ other, state.idleTask cpuid ∉ state.runQueue other ∧
      state.current cpuid ∉ state.runQueue other) ∧
    ∀ event, Allowed maxCpus state event -> (step maxCpus state event).isSome := by
  obtain ⟨⟨loc, located⟩, progress⟩ := reached.located
  refine ⟨located.lengths, located.filed.nodup, fun p cpuid other here there => ?_, fun cpuid inside other =>
    ⟨?_, ?_⟩, progress⟩
  · have same := (located.listed.1 here).symm.trans (located.listed.1 there)
    cases same
    rfl
  · intro queued
    rw [located.listed] at queued
    exact located.not_idle inside (by simp [queued]) rfl
  intro queued
  have seated := located.seated cpuid inside
  rw [located.listed.1 queued] at seated
  cases seated

def twoCpus : State where
  tasks p := ⟨taskRunning, if p = 1 then 1 else 0, if p < 2 then p else noCpu, if p < 2 then noCpu else 1, false, false⟩
  idleTask cpuid := cpuid
  current cpuid := cpuid
  runQueue _ := []
  runQueueLength _ := 0
  active _ := true
  schedLock _ := false

theorem twoCpus_start : Start 2 twoCpus where
  current := rfl
  distinct _ _ _ _ same := same
  idle _ inside := ⟨if_pos inside, rfl⟩
  fresh p other := by
    have high : ¬ p < 2 := fun low => other p low rfl
    exact if_neg high
  links _ := ⟨rfl, rfl⟩
  homes p := by
    constructor
    · simp only [twoCpus]
      split <;> decide
    simp only [twoCpus]
    split
    next => exact .inl rfl
    next => exact .inr (by decide)
  empty _ := ⟨rfl, rfl⟩
  unlocked _ := rfl

def queuedTwo : State := (step 2 twoCpus (.add 0 2 (-1))).getD twoCpus

theorem queuedTwo_reaches : Reaches 2 queuedTwo := by
  have started : Reaches 2 twoCpus := .start twoCpus_start
  have loose : Loose 2 twoCpus 2 := ⟨fun _ low same => absurd same low.ne, rfl, rfl, fun _ low same => absurd same low.ne⟩
  have may : Allowed 2 twoCpus (.add 0 2 (-1)) := ⟨by decide, loose, .inl rfl⟩
  exact started.next may rfl

def queuedBoth : State := (step 2 queuedTwo (.add 1 3 (-99))).getD queuedTwo

theorem queuedBoth_reaches : Reaches 2 queuedBoth := by
  have other (cpuid : Nat) (low : cpuid < 2) : cpuid ≠ 3 := by omega
  have loose : Loose 2 queuedTwo 3 := ⟨other, rfl, rfl, other⟩
  have may : Allowed 2 queuedTwo (.add 1 3 (-99)) := ⟨by decide, loose, .inr rfl⟩
  exact queuedTwo_reaches.next may rfl

theorem run_queues_consistent_twoCpus : ∃ state, Reaches 2 state ∧ state.runQueue 0 = [2] ∧ state.runQueue 1 = [3] ∧
    (∀ cpuid, state.runQueueLength cpuid = (state.runQueue cpuid).length) ∧ (step 2 state (.schedule 1)).isSome := by
  obtain ⟨lengths, -, -, -, progress⟩ := run_queues_consistent 2 queuedBoth queuedBoth_reaches
  exact ⟨queuedBoth, queuedBoth_reaches, rfl, rfl, lengths, progress (.schedule 1) (by decide : 1 < 2)⟩

end JinyKernel.Sched
