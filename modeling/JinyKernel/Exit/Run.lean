import JinyKernel.Exit.Frames

namespace JinyKernel.Exit

open Function List Option Run
open Sched (State taskDead)

inductive Event where
  | queue (event : Sched.Event)
  | cpu (cpuid : Nat) (act : Act)

variable (maxCpus : Nat) (k : Kernel)

def step : Event -> Option Kernel
  | .queue event => (Sched.step maxCpus k.sched event).map fun sched => { k with sched := sched }
  | .cpu cpuid a => act maxCpus k cpuid a

def QueueAllowed (state : State) (event : Sched.Event) : Prop :=
  Sched.Allowed maxCpus state event ∧
    match event with
    | .add _ p _ => ¬ Dead state p
    | .del .. => True
    | .wakeup .. => True
    | .wait _ => False
    | .schedule _ => False

def locks (cpuid : Nat) : Frame -> Bool
  | .sweep => k.sched.idleTask cpuid ≠ k.sched.current cpuid ∧ k.deadList ≠ []
  | .release | .orphan | .sleep | .collect _ | .unlink _ | .children _ => true
  | .schedule | .wait4 _ | .delete _ | .free _ => false

def ActAllowed (cpuid : Nat) : Act -> Prop
  | .enter call => cpuid < maxCpus ∧ k.stack cpuid = k.sched.current cpuid ∧ k.code (k.sched.current cpuid) = [] ∧
      -- the idle tasks only call the scheduler
      (call = .schedule ∨ ∀ other < maxCpus, k.sched.idleTask other ≠ k.sched.current cpuid)
  | .interrupt => cpuid < maxCpus ∧ k.stack cpuid = k.sched.current cpuid ∧ k.sched.schedLock cpuid = false
  | .run => cpuid < maxCpus ∧ k.stack cpuid = k.sched.current cpuid ∧
      ∀ frame ∈ (k.code (k.sched.current cpuid)).head?, locks k cpuid frame = true ->
        ∀ other < maxCpus, k.sched.schedLock other = false
  | .switchTo => cpuid < maxCpus

def Allowed : Event -> Prop
  | .queue event => QueueAllowed maxCpus k.sched event
  | .cpu cpuid a => ActAllowed maxCpus k cpuid a

def taken (cpuid : Nat) : Frame -> Option Nat
  | .sweep => if k.sched.idleTask cpuid = k.sched.current cpuid then none else k.deadList.getLast?
  | .collect child => some child
  | .unlink task => ((unlinkTask k task).deadTasks task).head?
  | .children task => (k.deadTasks task).head?
  | _ => none

def Vacated : Event -> Prop
  | .cpu cpuid .run => ∀ frame ∈ (k.code (k.sched.current cpuid)).head?, ∀ p ∈ taken k cpuid frame, Left maxCpus k p
  | _ => True

structure Start : Prop where
  reached : Sched.Reaches maxCpus k.sched
  alive : ∀ p, ¬ Dead k.sched p
  stack : k.stack = k.sched.current
  code : ∀ p, k.code p = []
  count : ∀ p, k.count p = 1
  lists : (∀ p, k.deadTasks p = []) ∧ k.deadList = [] ∧ k.freed = []

section

variable {maxCpus : Nat} {since : List Nat} {k next : Kernel} {cpuid p : Nat} {rest : List Frame} {frame : Frame}

theorem Inv.pop (inv : Inv maxCpus since k) (code : k.code p = frame :: rest) (alive : ¬ Dead k.sched p) :
    Inv maxCpus since (k.setCode p rest) := by
  have fits := inv.fits p
  rw [code] at fits
  refine inv.setCode fits.tail (fun _ _ _ dead => absurd dead alive) ?_
  rintro ⟨other, inside, isIdle⟩ later among
  refine inv.idle other inside later ?_
  rw [isIdle, code]
  exact mem_cons_of_mem _ among

theorem Settled.own_idle {state : State} (settled : Settled maxCpus state) (inside : cpuid < maxCpus) {other : Nat}
    (there : other < maxCpus) (isIdle : state.idleTask other = state.current cpuid) : other = cpuid := by
  obtain ⟨loc, located⟩ := settled.located
  have seated := located.seated cpuid inside
  rw [← isIdle] at seated
  rcases (located.idle there).1 with running | resting
  · rw [running] at seated
    exact some.inj seated
  · rw [resting] at seated
    cases seated

theorem Inv.run (inv : Inv maxCpus since k) (allowed : ActAllowed maxCpus k cpuid .run)
    (vacated : Vacated maxCpus k (.cpu cpuid .run)) (moved : act maxCpus k cpuid .run = some next) :
    Inv maxCpus since next := by
  obtain ⟨inside, -, unlocked⟩ := allowed
  simp only [act] at moved
  cases code : k.code (k.sched.current cpuid) with
  | nil =>
    rw [code] at moved
    cases moved
    exact inv
  | cons frame rest =>
    simp only [Vacated] at vacated
    rw [code] at moved unlocked vacated
    replace unlocked := unlocked frame rfl
    replace vacated := vacated frame rfl
    have fits := inv.fits (k.sched.current cpuid)
    rw [code] at fits
    by_cases scheduling : frame = .schedule
    · subst scheduling
      exact inv.scSchedule inside code moved
    have alive : ¬ Dead k.sched (k.sched.current cpuid) :=
      mt (inv.leaving cpuid inside) (by simpa [code] using scheduling)
    have popped := inv.pop code alive
    by_cases isIdle : k.sched.idleTask cpuid = k.sched.current cpuid
    · -- an idle task sweeps nothing
      have among : frame ∈ k.code (k.sched.idleTask cpuid) := by simp [isIdle, code]
      rcases inv.idle cpuid inside frame among with same | same
      · exact absurd same scheduling
      subst same
      change scRemoveDeadTasks _ cpuid _ = some next at moved
      cases moved.symm.trans (if_pos isIdle)
      exact popped
    have notIdle (other : Nat) (there : other < maxCpus) : k.sched.idleTask other ≠ k.sched.current cpuid := by
      intro same
      rw [inv.settled.own_idle inside there same] at same
      exact isIdle same
    have works : Works maxCpus since (k.setCode (k.sched.current cpuid) rest) cpuid (k.sched.current cpuid) :=
      ⟨popped, inside, rfl, alive, notIdle⟩
    have backed := fits.2 frame mem_cons_self
    have dying (last : frame = .release ∨ frame = .orphan) :
        ((k.setCode (k.sched.current cpuid) rest).code (k.sched.current cpuid)).head? = some .schedule := by
      change (update k.code (k.sched.current cpuid) rest (k.sched.current cpuid)).head? = _
      rw [update_self]
      exact fits.1.1 last
    cases frame with
    | release =>
      cases moved
      exact works.releaseResources (unlocked rfl cpuid inside) (dying (.inl rfl))
    | orphan => exact works.addToDeadlist (unlocked rfl cpuid inside) (dying (.inr rfl)) moved
    | schedule => exact absurd rfl scheduling
    | sweep => exact works.scRemoveDeadTasks (fun task last => vacated task ((if_neg isIdle).trans last)) moved
    | sleep => exact works.scSleep (unlocked rfl cpuid inside) moved
    | wait4 noHang =>
      cases moved
      exact works.sysWait4 noHang
    | collect child =>
      cases moved
      exact works.collectChild ⟨backed, vacated child rfl⟩
    | delete task =>
      cases moved
      exact works.scDeleteTask backed
    | unlink task =>
      cases moved
      exact works.unlink backed vacated
    | children task =>
      cases moved
      exact works.deleteChild backed vacated
    | free task =>
      cases moved
      exact works.free backed

theorem Inv.act (inv : Inv maxCpus since k) {a : Act} (allowed : ActAllowed maxCpus k cpuid a)
    (vacated : Vacated maxCpus k (.cpu cpuid a)) (moved : Exit.act maxCpus k cpuid a = some next) :
    Inv maxCpus since next := by
  cases a with
  | enter call =>
    obtain ⟨inside, -, code, entering⟩ := allowed
    cases moved
    have alive : ¬ Dead k.sched (k.sched.current cpuid) := mt (inv.leaving cpuid inside) (by simp [code])
    refine inv.setCode ?_ (fun _ _ _ dead => absurd dead alive) ?_
    · cases call <;> exact ⟨by simp [Call.frames], by simp [Call.frames]⟩
    rintro ⟨other, there, isIdle⟩
    rcases entering with isSchedule | notIdle
    · subst isSchedule
      simp [Call.frames]
    · exact absurd isIdle (notIdle other there)
  | interrupt =>
    cases moved
    refine inv.setCode (.append (by simp) (by simp) (inv.fits _)) (fun _ _ _ _ => rfl) ?_
    rintro ⟨other, there, isIdle⟩ frame among
    rcases mem_append.1 among with pushed | before
    · simpa using pushed
    · exact inv.idle other there frame (isIdle ▸ before)
  | run => exact inv.run allowed vacated moved
  | switchTo =>
    cases moved
    have gone (p : Nat) (was : Gone maxCpus k p) :
        Gone maxCpus { k with stack := update k.stack cpuid (k.sched.current cpuid) } p := by
      refine ⟨was.1, fun other there => ⟨(was.2 other there).1, ?_⟩⟩
      by_cases here : other = cpuid
      · subst here
        simpa using (was.2 other there).1
      · simpa [here] using (was.2 other there).2
    exact { inv with
      fits := fun p => (inv.fits p).map (fun _ => id) gone
      freed := fun p among => gone p (inv.freed p among) }

theorem Inv.queue (inv : Inv maxCpus since k) {event : Sched.Event} (allowed : QueueAllowed maxCpus k.sched event)
    {sched : State} (moved : Sched.step maxCpus k.sched event = some sched) :
    Inv maxCpus since { k with sched := sched } := by
  obtain ⟨may, alive⟩ := allowed
  obtain ⟨loc, located⟩ := inv.settled.located
  obtain ⟨_, nextLoc, again, after⟩ := located.step may
  cases moved.symm.trans again
  refine inv.moves ?_ ⟨nextLoc, after⟩
  cases event with
  | add myCpuid p argCpuid =>
    obtain ⟨⟨ret, queued⟩, added, same⟩ := map_eq_some_iff.1 moved
    cases same
    exact addToRunqueue_moves alive added
  | del myCpuid p argCpuid =>
    obtain ⟨⟨found, removed⟩, deleted, same⟩ := map_eq_some_iff.1 moved
    cases same
    obtain ⟨target, inside, arg, listed⟩ := may
    rcases located.delFromRunqueue inside arg listed with miss | ⟨q, queued, taken⟩
    · cases deleted.symm.trans miss
      exact .refl _
    · cases deleted.symm.trans taken
      exact unlink_moves (inv.settled.queued_alive queued)
  | wakeup myCpuid p =>
    have lives : ¬ Dead k.sched p := by
      intro dead
      have waiting := may.2.2
      rw [(inv.settled.out p dead).2] at waiting
      cases waiting
    simp only [Sched.step, Sched.wakeup] at moved
    split_ifs at moved
    obtain ⟨⟨here, assigned⟩, woken, same⟩ := bind_iff.1 moved
    cases same
    obtain ⟨⟨ret, queued⟩, added, same⟩ := bind_iff.1 woken
    cases same
    have awake : Moves k.sched (k.sched.setTask p { k.sched.tasks p with waiting := false }) :=
      setTask_moves lives lives
    exact awake.trans (addToRunqueue_moves (mt (awake.dead p).1 lives) added)
  | wait myCpuid | schedule myCpuid => cases alive

end

variable {maxCpus : Nat} {since : List Nat} {k next : Kernel}

theorem Start.inv (start : Start maxCpus k) : Inv maxCpus [] k where
  settled := ⟨start.reached.located.1, fun p dead => absurd dead (start.alive p)⟩
  listed parent p among := by
    rw [start.lists.1 parent] at among
    cases among
  deadList p among := by
    rw [start.lists.2.1] at among
    cases among
  leaving _ _ dead := absurd dead (start.alive _)
  fits p := by
    rw [start.code p]
    exact ⟨trivial, by simp⟩
  idle cpuid _ frame among := by
    rw [start.code] at among
    cases among
  freed p among := by
    rw [start.lists.2.2, or_self_iff] at among
    cases among

theorem Inv.step {event : Event} (inv : Inv maxCpus since k) (allowed : Allowed maxCpus k event)
    (vacated : Vacated maxCpus k event) (moved : step maxCpus k event = some next) : Inv maxCpus since next := by
  cases event with
  | queue event =>
    obtain ⟨sched, stepped, same⟩ := map_eq_some_iff.1 moved
    subst same
    exact inv.queue allowed stepped
  | cpu cpuid a => exact inv.act allowed vacated moved

abbrev CarefulRun (maxCpus : Nat) (init : Kernel -> Prop) : Kernel -> Prop :=
  Reachable init (step maxCpus) fun k event => Allowed maxCpus k event ∧ Vacated maxCpus k event

theorem freed_left (maxCpus : Nat) (k later : Kernel) (reached : CarefulRun maxCpus (Start maxCpus) k)
    (followed : CarefulRun maxCpus (· = k) later) : ∀ p ∈ k.freed, Left maxCpus later p := by
  have now : Inv maxCpus [] k := by
    refine reached.invariant (fun _ => Start.inv) fun _ _ _ inv may moved => ?_
    exact inv.step may.1 may.2 moved
  have since : Inv maxCpus k.freed later := by
    refine followed.invariant (fun _ same => ?_) fun _ _ _ inv may moved => inv.step may.1 may.2 moved
    subst same
    exact { now with freed := fun p among => now.freed p (.inr (or_self_iff.1 among)) }
  exact fun p among => (since.freed p (.inl among)).2

instance (maxCpus : Nat) (k : Kernel) (p : Nat) : Decidable (Left maxCpus k p) :=
  inferInstanceAs (Decidable (∀ cpuid < maxCpus, _ ∧ _))

instance (maxCpus : Nat) (k : Kernel) (cpuid : Nat) : (a : Act) -> Decidable (ActAllowed maxCpus k cpuid a)
  | .enter _ => inferInstanceAs (Decidable (_ ∧ _ ∧ _ ∧ (_ ∨ ∀ other < maxCpus, _)))
  | .interrupt => inferInstanceAs (Decidable (_ ∧ _ ∧ _))
  | .run => inferInstanceAs (Decidable (_ ∧ _ ∧ ∀ frame ∈ (k.code (k.sched.current cpuid)).head?,
      locks k cpuid frame = true -> ∀ other < maxCpus, k.sched.schedLock other = false))
  | .switchTo => inferInstanceAs (Decidable (_ < _))

instance (maxCpus : Nat) (k : Kernel) (cpuid : Nat) : (a : Act) -> Decidable (Vacated maxCpus k (.cpu cpuid a))
  | .run => inferInstanceAs (Decidable (∀ frame ∈ (k.code (k.sched.current cpuid)).head?,
      ∀ p ∈ taken k cpuid frame, Left maxCpus k p))
  | .enter _ => inferInstanceAs (Decidable True)
  | .interrupt => inferInstanceAs (Decidable True)
  | .switchTo => inferInstanceAs (Decidable True)

def family : Kernel where
  sched := {
    tasks p := ⟨Sched.taskRunning, p % 2, if p < 2 then p else Sched.noCpu, Sched.noCpu, false, false⟩
    idleTask cpuid := cpuid
    current cpuid := cpuid
    runQueue _ := []
    runQueueLength _ := 0
    active _ := true
    schedLock _ := false }
  stack cpuid := cpuid
  code _ := []
  taskId p := p
  parentProcessPid _ := 2
  count _ := 1
  deadTasks _ := []
  taskQueue := [0, 1, 2, 3]
  deadList := []
  freed := []

theorem family_start : Start 2 family where
  reached := by
    refine .start ⟨rfl, fun _ _ _ _ same => same, fun _ inside => ⟨if_pos inside, rfl⟩, fun p other => ?_,
      fun _ => ⟨rfl, rfl⟩, fun p => ⟨Nat.mod_lt p (by decide), .inl rfl⟩, fun _ => ⟨rfl, rfl⟩, fun _ => rfl⟩
    have high : ¬ p < 2 := fun low => other p low rfl
    exact if_neg high
  alive p := by
    change ¬ Sched.taskRunning = taskDead
    decide
  stack := rfl
  code _ := rfl
  count _ := rfl
  lists := ⟨fun _ => rfl, rfl, rfl⟩

def readied : Kernel := { family with sched := (family.sched.enqueue 0 2).enqueue 1 3 }

theorem readied_reached : CarefulRun 2 (Start 2) readied := by
  have started : CarefulRun 2 (Start 2) family := .start family_start
  have parent : Sched.Loose 2 family.sched 2 := ⟨by decide, rfl, rfl, by decide⟩
  have child : Sched.Loose 2 (family.sched.enqueue 0 2) 3 := ⟨by decide, rfl, rfl, by decide⟩
  have may : Allowed 2 family (.queue (.add 0 2 (-1))) := ⟨⟨by decide, parent, .inl rfl⟩, by decide⟩
  have mayChild : Allowed 2 { family with sched := family.sched.enqueue 0 2 } (.queue (.add 1 3 (-1))) :=
    ⟨⟨by decide, child, .inl rfl⟩, by decide⟩
  have queued : step 2 family (.queue (.add 0 2 (-1))) = some { family with sched := family.sched.enqueue 0 2 } := rfl
  have moved : step 2 { family with sched := family.sched.enqueue 0 2 } (.queue (.add 1 3 (-1))) = some readied := rfl
  exact (started.next ⟨may, trivial⟩ queued).next ⟨mayChild, trivial⟩ moved

def exits : List (Nat × Act) :=
  [(0, .enter .schedule), (0, .run), (0, .switchTo), (1, .enter .schedule), (1, .run), (1, .switchTo),
    (1, .enter .exit), (1, .run)]

def leaves : List (Nat × Act) := [(1, .run), (1, .switchTo)]

def reaps : List (Nat × Act) := [(0, .enter (.wait4 false)), (0, .run), (0, .run), (0, .run), (0, .run), (0, .run)]

def mayAct (maxCpus : Nat) (k : Kernel) : Event -> Bool
  | .queue _ => false
  | .cpu cpuid a => ActAllowed maxCpus k cpuid a

def mayReap (maxCpus : Nat) (k : Kernel) : Event -> Bool
  | .queue _ => false
  | .cpu cpuid a => ActAllowed maxCpus k cpuid a ∧ Vacated maxCpus k (.cpu cpuid a)

theorem freed_left_child : ∃ k, CarefulRun 2 (Start 2) k ∧ k.freed = [3] ∧ Left 2 k 3 := by
  have outcome : (((exits ++ leaves ++ reaps).map fun (cpuid, a) => Event.cpu cpuid a).foldlM (fun k event =>
      if mayReap 2 k event then step 2 k event else none) readied).any (fun k => k.freed = [3]) = true := by
    decide +kernel
  obtain ⟨k, ran, freed⟩ := holds_of_any outcome
  have sound (k : Kernel) (event : Event) (may : mayReap 2 k event = true) : Allowed 2 k event ∧ Vacated 2 k event := by
    cases event with
    | queue event => cases may
    | cpu cpuid a =>
      have both := of_decide_eq_true may
      exact both
  have reached := readied_reached.checked (fun k event _ => sound k event) ran
  exact ⟨k, reached, freed, freed_left 2 k k reached (.start rfl) 3 (by simp [freed])⟩

theorem child_freed_on_cpu : ∃ k, Reachable (Start 2) (step 2) (Allowed 2) k ∧ 3 ∈ k.freed ∧
    k.sched.current 1 = 3 ∧ k.stack 1 = 3 := by
  have outcome : (((exits ++ reaps).map fun (cpuid, a) => Event.cpu cpuid a).foldlM (fun k event =>
      if mayAct 2 k event then step 2 k event else none) readied).any
      (fun k => 3 ∈ k.freed ∧ k.sched.current 1 = 3 ∧ k.stack 1 = 3) = true := by
    decide +kernel
  obtain ⟨k, ran, facts⟩ := holds_of_any outcome
  have sound (k : Kernel) (event : Event) (may : mayAct 2 k event = true) : Allowed 2 k event := by
    cases event with
    | queue event => cases may
    | cpu cpuid a =>
      have allowed := of_decide_eq_true may
      exact allowed
  have started := readied_reached.mono fun _ _ may => may.1
  exact ⟨k, started.checked (fun k event _ => sound k event) ran, facts⟩

end JinyKernel.Exit
