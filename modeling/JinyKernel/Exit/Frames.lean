import JinyKernel.Exit.Dead

namespace JinyKernel.Exit

open Function List

open Sched (State taskDead)

variable (maxCpus : Nat)

def Left (k : Kernel) (p : Nat) : Prop :=
  ∀ cpuid < maxCpus, k.sched.current cpuid ≠ p ∧ k.stack cpuid ≠ p

def Gone (k : Kernel) (p : Nat) : Prop := Dead k.sched p ∧ Left maxCpus k p

@[simp] def Backed (dead gone : Nat -> Prop) : Frame -> Prop
  | .collect p => dead p
  | .delete p | .unlink p | .children p | .free p => gone p
  | _ => True

@[simp] def Sound : List Frame -> Prop
  | [] => True
  | frame :: rest => (frame = .release ∨ frame = .orphan -> rest.head? = some .schedule) ∧ Sound rest

def Fits (k : Kernel) (frames : List Frame) : Prop :=
  Sound frames ∧ ∀ frame ∈ frames, Backed (Dead k.sched) (Gone maxCpus k) frame

structure Inv (since : List Nat) (k : Kernel) : Prop where
  settled : Settled maxCpus k.sched
  listed : ∀ parent, ∀ p ∈ k.deadTasks parent, Dead k.sched p
  deadList : ∀ p ∈ k.deadList, Dead k.sched p
  leaving : ∀ cpuid < maxCpus, Dead k.sched (k.sched.current cpuid) ->
    (k.code (k.sched.current cpuid)).head? = some .schedule
  fits : ∀ p, Fits maxCpus k (k.code p)
  idle : ∀ cpuid < maxCpus, ∀ frame ∈ k.code (k.sched.idleTask cpuid), frame = .schedule ∨ frame = .sweep
  freed : ∀ p, p ∈ since ∨ p ∈ k.freed -> Gone maxCpus k p

theorem Sound.append {frames rest : List Frame} (plain : ∀ frame ∈ frames, frame ≠ .release ∧ frame ≠ .orphan)
    (sound : Sound rest) : Sound (frames ++ rest) := by
  induction frames with
  | nil => exact sound
  | cons frame frames ih =>
    refine ⟨?_, ih fun other among => plain other (mem_cons_of_mem _ among)⟩
    rintro (same | same)
    · exact absurd same (plain frame mem_cons_self).1
    · exact absurd same (plain frame mem_cons_self).2

variable {maxCpus : Nat} {since : List Nat} {k next : Kernel} {cpuid p : Nat} {frames rest : List Frame} {frame : Frame}

theorem Fits.append (plain : ∀ frame ∈ frames, frame ≠ .release ∧ frame ≠ .orphan)
    (backed : ∀ frame ∈ frames, Backed (Dead k.sched) (Gone maxCpus k) frame) (others : Fits maxCpus k rest) :
    Fits maxCpus k (frames ++ rest) :=
  ⟨others.1.append plain, forall_mem_append.2 ⟨backed, others.2⟩⟩

theorem Fits.tail (fits : Fits maxCpus k (frame :: rest)) : Fits maxCpus k rest :=
  ⟨fits.1.2, (forall_mem_cons.1 fits.2).2⟩

theorem Fits.map (fits : Fits maxCpus k frames) (dead : ∀ p, Dead k.sched p -> Dead next.sched p)
    (gone : ∀ p, Gone maxCpus k p -> Gone maxCpus next p) : Fits maxCpus next frames := by
  refine ⟨fits.1, fun frame among => ?_⟩
  have was := fits.2 frame among
  cases frame with
  | collect p => exact dead p was
  | delete p | unlink p | children p | free p => exact gone p was
  | _ => trivial

theorem Gone.moves {sched : State} (gone : Gone maxCpus k p) (moves : Moves k.sched sched) :
    Gone maxCpus { k with sched := sched } p := by
  refine ⟨(moves.dead p).2 gone.1, fun cpuid inside => ⟨fun here => ?_, (gone.2 cpuid inside).2⟩⟩
  exact (gone.2 cpuid inside).1 (moves.current cpuid p gone.1 here)

theorem Inv.moves (inv : Inv maxCpus since k) {sched : State} (moves : Moves k.sched sched)
    (located : ∃ loc, Sched.Located maxCpus sched loc) : Inv maxCpus since { k with sched := sched } where
  settled := inv.settled.moves moves located
  listed parent p among := (moves.dead p).2 (inv.listed parent p among)
  deadList p among := (moves.dead p).2 (inv.deadList p among)
  leaving cpuid inside dead := by
    have was := (moves.dead _).1 dead
    have same := moves.current cpuid _ was rfl
    rw [← same] at was ⊢
    exact inv.leaving cpuid inside was
  fits p := (inv.fits p).map (fun q dead => (moves.dead q).2 dead) fun _ gone => gone.moves moves
  idle cpuid inside := by
    rw [show sched.idleTask = k.sched.idleTask from moves.idleTask]
    exact inv.idle cpuid inside
  freed p among := (inv.freed p among).moves moves

theorem Inv.setCode (inv : Inv maxCpus since k) (fits : Fits maxCpus k frames)
    (leaving : ∀ cpuid < maxCpus, k.sched.current cpuid = p -> Dead k.sched p -> frames.head? = some .schedule)
    (idle : (∃ cpuid < maxCpus, k.sched.idleTask cpuid = p) -> ∀ frame ∈ frames, frame = .schedule ∨ frame = .sweep) :
    Inv maxCpus since (k.setCode p frames) where
  __ := inv
  leaving cpuid inside dead := by
    change (update k.code p frames (k.sched.current cpuid)).head? = _
    by_cases here : k.sched.current cpuid = p
    · rw [here, update_self]
      exact leaving cpuid inside here (here ▸ dead)
    · rw [update_of_ne here]
      exact inv.leaving cpuid inside dead
  fits q := by
    change Fits maxCpus _ (update k.code p frames q)
    by_cases here : q = p
    · rw [here, update_self]
      exact fits
    · rw [update_of_ne here]
      exact inv.fits q
  idle cpuid inside := by
    change ∀ frame ∈ update k.code p frames (k.sched.idleTask cpuid), _
    by_cases here : k.sched.idleTask cpuid = p
    · rw [here, update_self]
      exact idle ⟨cpuid, inside, here⟩
    · rw [update_of_ne here]
      exact inv.idle cpuid inside

structure Works (maxCpus : Nat) (since : List Nat) (k : Kernel) (cpuid p : Nat) : Prop where
  inv : Inv maxCpus since k
  inside : cpuid < maxCpus
  current : k.sched.current cpuid = p
  alive : ¬ Dead k.sched p
  notIdle : ∀ other < maxCpus, k.sched.idleTask other ≠ p

theorem Works.setCode (works : Works maxCpus since k cpuid p) (fits : Fits maxCpus k frames) :
    Inv maxCpus since (k.setCode p frames) := by
  refine works.inv.setCode fits (fun _ _ _ dead => absurd dead works.alive) ?_
  rintro ⟨other, inside, isIdle⟩
  exact absurd isIdle (works.notIdle other inside)

theorem Works.push (works : Works maxCpus since k cpuid p) (plain : ∀ frame ∈ frames, frame ≠ .release ∧ frame ≠ .orphan)
    (backed : ∀ frame ∈ frames, Backed (Dead k.sched) (Gone maxCpus k) frame) : Inv maxCpus since (k.push p frames) :=
  works.setCode (.append plain backed (works.inv.fits p))

variable {task : Nat}

theorem Inv.relist (inv : Inv maxCpus since k) {count : Nat -> Int} {deadTasks : Nat -> List Nat}
    {taskQueue deadList : List Nat}
    (listed : ∀ parent, ∀ p ∈ deadTasks parent, Dead k.sched p) (dead : ∀ p ∈ deadList, Dead k.sched p) :
    Inv maxCpus since
      { k with count := count, deadTasks := deadTasks, taskQueue := taskQueue, deadList := deadList } where
  __ := inv
  listed := listed
  deadList := dead

section

variable (works : Works maxCpus since k cpuid p)

include works

theorem Works.shrink (count : Nat -> Int) (deadTasks : Nat -> List Nat)
    (taskQueue deadList : List Nat) (listed : ∀ parent, deadTasks parent ⊆ k.deadTasks parent)
    (fewer : deadList ⊆ k.deadList) :
    Works maxCpus since
      { k with count := count, deadTasks := deadTasks, taskQueue := taskQueue, deadList := deadList } cpuid p :=
  { works with
    inv := works.inv.relist (fun parent q among => works.inv.listed parent q (listed parent among))
      fun q among => works.inv.deadList q (fewer among) }

section

variable (unlocked : k.sched.schedLock cpuid = false)

include unlocked

theorem Works.die (leaving : (k.code p).head? = some .schedule) :
    Inv maxCpus since (k.setTask p { k.sched.tasks p with waiting := false, state := taskDead }) := by
  obtain ⟨loc, located⟩ := works.inv.settled.located
  have onCpu := located.on_cpu works.inside unlocked
  have shows := (located.seen p).shows
  rw [works.current] at onCpu
  rw [onCpu] at shows
  set task : Sched.Task := { k.sched.tasks p with waiting := false, state := taskDead }
  have tasks (q : Nat) (apart : q ≠ p) : (k.sched.setTask p task).tasks q = k.sched.tasks q := by
    simp [State.setTask, apart]
  have own : (k.sched.setTask p task).tasks p = task := by simp [State.setTask]
  have died : Dead (k.sched.setTask p task) p := by rw [Dead, own]
  have dead (q : Nat) (was : Dead k.sched q) : Dead (k.sched.setTask p task) q := by
    by_cases here : q = p
    · rwa [here]
    · rwa [Dead, tasks q here]
  have gone (q : Nat) (was : Gone maxCpus k q) : Gone maxCpus (k.setTask p task) q := ⟨dead q was.1, was.2⟩
  constructor
  case settled =>
    constructor
    case located =>
      refine ⟨loc, located.retune ?_ { (located.seen p).home with } ?_⟩
      · rw [onCpu]
        exact ⟨shows.seat, shows.list, rfl, by simp⟩
      · rintro ⟨other, inside, isIdle⟩
        exact absurd isIdle (works.notIdle other inside)
    case out =>
      intro q isDead
      by_cases here : q = p
      · subst here
        change ((k.sched.setTask q task).tasks q).queued = false ∧ ((k.sched.setTask q task).tasks q).waiting = false
        rw [own]
        exact ⟨shows.list, rfl⟩
      change Dead (k.sched.setTask p task) q at isDead
      change ((k.sched.setTask p task).tasks q).queued = false ∧ ((k.sched.setTask p task).tasks q).waiting = false
      rw [Dead, tasks q here] at isDead
      rw [tasks q here]
      exact works.inv.settled.out q isDead
  case listed => exact fun parent q among => dead q (works.inv.listed parent q among)
  case deadList => exact fun q among => dead q (works.inv.deadList q among)
  case leaving =>
    intro other inside isDead
    by_cases here : k.sched.current other = p
    · change (k.code (k.sched.current other)).head? = _
      rwa [here]
    · change Dead (k.sched.setTask p task) (k.sched.current other) at isDead
      rw [Dead, tasks _ here] at isDead
      exact works.inv.leaving other inside isDead
  case fits => exact fun q => (works.inv.fits q).map dead gone
  case idle => exact works.inv.idle
  case freed => exact fun q among => gone q (works.inv.freed q among)

theorem Works.awake : (k.sched.tasks p).waiting = false := by
  obtain ⟨loc, located⟩ := works.inv.settled.located
  have onCpu := located.on_cpu works.inside unlocked
  have shows := (located.seen p).shows
  rw [← works.current, onCpu] at shows
  rw [← works.current]
  exact shows.waits

theorem Works.releaseResources (leaving : (k.code p).head? = some .schedule) :
    Inv maxCpus since (Exit.releaseResources k p) := by
  rw [Exit.releaseResources]
  split
  next task _ =>
    have died := works.die unlocked leaving
    refine died.relist (fun parent q among => ?_) died.deadList
    by_cases here : parent = task
    · rw [here, update_self] at among
      rcases mem_append.1 among with before | last
      · exact died.listed task q before
      · rw [mem_singleton.1 last]
        simp [Dead, Kernel.setTask, State.setTask]
    · rw [update_of_ne here] at among
      exact died.listed parent q among
  next =>
    have rest := works.inv.fits p
    exact works.setCode ⟨⟨fun _ => leaving, rest.1⟩, forall_mem_cons.2 ⟨trivial, rest.2⟩⟩

theorem Works.addToDeadlist (leaving : (k.code p).head? = some .schedule) (added : Exit.addToDeadlist k p = some next) :
    Inv maxCpus since next := by
  rw [Exit.addToDeadlist] at added
  split_ifs at added
  cases added
  have died := works.die unlocked leaving
  have same : ({ k.sched.tasks p with waiting := false, state := taskDead } : Sched.Task) =
      { k.sched.tasks p with state := taskDead } := by
    rw [← works.awake unlocked]
  rw [same] at died
  refine died.relist died.listed fun q among => ?_
  rcases mem_append.1 among with before | last
  · exact died.deadList q before
  · rw [mem_singleton.1 last]
    simp [Dead, Kernel.setTask, State.setTask]

end

theorem Works.scRemoveDeadTasks (left : ∀ task, k.deadList.getLast? = some task -> Left maxCpus k task)
    (swept : Exit.scRemoveDeadTasks k cpuid p = some next) : Inv maxCpus since next := by
  rw [Exit.scRemoveDeadTasks, if_neg (works.notIdle cpuid works.inside)] at swept
  split at swept
  next =>
    cases swept
    exact works.inv
  next task last =>
    split_ifs at swept with dead
    cases swept
    have fewer := works.shrink k.count k.deadTasks k.taskQueue k.deadList.dropLast (fun _ => List.Subset.refl _)
      (dropLast_subset k.deadList)
    exact fewer.push (by simp) (forall_mem_cons.2 ⟨⟨dead, left task last⟩, by simp⟩)

theorem Works.sysWait4 (noHang : Bool) : Inv maxCpus since (Exit.sysWait4 k p noHang) := by
  rw [Exit.sysWait4]
  split
  next =>
    split
    next => exact works.inv
    next => exact works.push (by simp) (by simp)
  next child _ list =>
    have dead := works.inv.listed p child (by simp [list])
    exact works.push (by simp) (forall_mem_singleton.2 dead)

theorem Works.collectChild {child : Nat} (gone : Gone maxCpus k child) :
    Inv maxCpus since (Exit.collectChild k p child) := by
  have fewer := works.shrink (update k.count child (k.count child - 1))
    (fun parent => (k.deadTasks parent).erase child) k.taskQueue k.deadList (fun _ => erase_subset)
    (List.Subset.refl _)
  exact fewer.push (by simp) (forall_mem_singleton.2 gone)

theorem Works.scDeleteTask (gone : Gone maxCpus k task) : Inv maxCpus since (Exit.scDeleteTask k p task) := by
  have counted := works.shrink (update k.count task (k.count task - 1)) k.deadTasks k.taskQueue k.deadList
    (fun _ => List.Subset.refl _) (List.Subset.refl _)
  simp only [Exit.scDeleteTask]
  split
  next => exact counted.inv
  next => exact counted.push (by simp) (forall_mem_singleton.2 gone)

theorem Works.deleteChild (gone : Gone maxCpus k task)
    (left : ∀ child, (k.deadTasks task).head? = some child -> Left maxCpus k child) :
    Inv maxCpus since (Exit.deleteChild k p task) := by
  rw [Exit.deleteChild]
  split
  next => exact works.push (by simp) (forall_mem_singleton.2 gone)
  next child rest list =>
    have dead := works.inv.listed task child (by simp [list])
    have fewer := works.shrink (update k.count child (k.count child - 1))
      (update k.deadTasks task rest) k.taskQueue k.deadList (fun parent => ?_) (List.Subset.refl _)
    · have childGone : Gone maxCpus k child := ⟨dead, left child (by simp [list])⟩
      exact fewer.push (by simp) (forall_mem_cons.2 ⟨childGone, forall_mem_singleton.2 gone⟩)
    by_cases here : parent = task
    · rw [here, update_self, list]
      exact subset_cons_self ..
    · rw [update_of_ne here]
      exact List.Subset.refl _

end

theorem Settled.unlinked {state : State} (settled : Settled maxCpus state) (dead : Dead state task) :
    { state.setTask task { state.tasks task with queued := false, waiting := false } with
      runQueue := fun cpuid => (state.runQueue cpuid).erase task } = state := by
  obtain ⟨unqueued, awake⟩ := settled.out task dead
  have same : ({ state.tasks task with queued := false, waiting := false } : Sched.Task) = state.tasks task := by
    cases here : state.tasks task
    simp_all
  have absent (cpuid : Nat) : (state.runQueue cpuid).erase task = state.runQueue cpuid :=
    erase_of_not_mem fun listed => settled.queued_alive listed dead
  simp [State.setTask, same, absent]

theorem Works.unlink (works : Works maxCpus since k cpuid p) (gone : Gone maxCpus k task)
    (left : ∀ child, ((unlinkTask k task).deadTasks task).head? = some child -> Left maxCpus k child) :
    Inv maxCpus since (Exit.deleteChild (unlinkTask k task) p task) := by
  have fewer := works.shrink k.count (fun parent => (k.deadTasks parent).erase task) (k.taskQueue.erase task) k.deadList
    (fun _ => erase_subset) (List.Subset.refl _)
  have same : unlinkTask k task = { k with
      deadTasks := fun parent => (k.deadTasks parent).erase task, taskQueue := k.taskQueue.erase task } := by
    rw [unlinkTask, works.inv.settled.unlinked gone.1]
  rw [same] at left ⊢
  exact fewer.deleteChild gone left

theorem Works.free (works : Works maxCpus since k cpuid p) (gone : Gone maxCpus k task) :
    Inv maxCpus since { k with freed := task :: k.freed } where
  __ := works.inv
  freed q among := by
    rw [mem_cons, or_left_comm] at among
    rcases among with same | before
    · rw [same]
      exact gone
    · exact works.inv.freed q before

theorem Works.scSleep (works : Works maxCpus since k cpuid p) (unlocked : k.sched.schedLock cpuid = false)
    (slept : Exit.scSleep k cpuid p = some next) : Inv maxCpus since next := by
  obtain ⟨sched, waited, isNext⟩ := Option.map_eq_some_iff.1 slept
  subst isNext
  obtain ⟨loc, located⟩ := works.inv.settled.located
  have preemptive : (k.sched.tasks (k.sched.current cpuid)).state ≠ Sched.taskNonpreemptive := by
    intro fixed
    rw [Sched.waitInternal, if_pos fixed] at waited
    cases waited
  have alive := works.alive
  have notIdle := works.notIdle
  rw [← works.current] at alive notIdle
  obtain ⟨_, again, after⟩ := located.waitInternal works.inside unlocked (Ne.symm (notIdle cpuid works.inside)) preemptive
  cases waited.symm.trans again
  have moves := waitInternal_moves alive waited
  have inv := works.inv.moves moves ⟨_, after⟩
  have current : sched.current = k.sched.current := by
    rw [Sched.waitInternal, if_neg preemptive] at waited
    cases waited
    rfl
  refine Works.push ⟨inv, works.inside, ?_, mt (moves.dead p).1 works.alive, ?_⟩ (by simp) (by simp)
  · rw [current, works.current]
  · rw [show sched.idleTask = k.sched.idleTask from moves.idleTask]
    exact works.notIdle

theorem Inv.scSchedule (inv : Inv maxCpus since k) (inside : cpuid < maxCpus)
    (code : k.code (k.sched.current cpuid) = .schedule :: rest)
    (called : Exit.scSchedule maxCpus (k.setCode (k.sched.current cpuid) rest) cpuid
      (k.sched.current cpuid) = some next) :
    Inv maxCpus since next := by
  rw [Exit.scSchedule] at called
  split_ifs at called
  obtain ⟨sched, ran, isNext⟩ := Option.map_eq_some_iff.1 called
  subst isNext
  obtain ⟨loc, located⟩ := inv.settled.located
  obtain ⟨_, nextLoc, again, after⟩ := located.schedule inside
  cases ran.symm.trans again
  obtain ⟨moves, alive⟩ := schedule_moves inv.settled inside ran
  have moved := inv.moves moves ⟨nextLoc, after⟩
  have fits := moved.fits (k.sched.current cpuid)
  rw [code] at fits
  refine moved.setCode fits.tail (fun other there here dead => ?_) ?_
  · -- a dead task that called the scheduler is on no processor now
    have was := (moves.dead _).1 dead
    have before := moves.current other _ was here
    have seat := located.seated cpuid inside
    have otherSeat := located.seated other there
    rw [before, seat] at otherSeat
    cases otherSeat
    rw [here] at alive
    exact absurd was alive
  · rintro ⟨other, there, isIdle⟩ frame among
    refine moved.idle other there frame ?_
    rw [isIdle, code]
    exact mem_cons_of_mem _ among

end JinyKernel.Exit
