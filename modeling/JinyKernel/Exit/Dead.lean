import JinyKernel.Exit.Model
import JinyKernel.Sched.Run

namespace JinyKernel.Exit

open Sched Run Function

def Dead (state : State) (p : Nat) : Prop := (state.tasks p).state = taskDead

instance (state : State) (p : Nat) : Decidable (Dead state p) := inferInstanceAs (Decidable (_ = _))

structure Moves (before after : State) : Prop where
  idleTask : after.idleTask = before.idleTask
  dead : ∀ p, Dead after p ↔ Dead before p
  links : ∀ p, Dead before p -> (after.tasks p).queued = (before.tasks p).queued ∧
    (after.tasks p).waiting = (before.tasks p).waiting
  current : ∀ cpuid p, Dead before p -> after.current cpuid = p -> before.current cpuid = p

namespace Moves

variable {before between after : State}

theorem refl (state : State) : Moves state state :=
  ⟨rfl, fun _ => Iff.rfl, fun _ _ => ⟨rfl, rfl⟩, fun _ _ _ => id⟩

theorem trans (first : Moves before between) (second : Moves between after) : Moves before after where
  idleTask := second.idleTask.trans first.idleTask
  dead p := (second.dead p).trans (first.dead p)
  links p dead := by
    obtain ⟨queued, waiting⟩ := second.links p ((first.dead p).2 dead)
    obtain ⟨wasQueued, wasWaiting⟩ := first.links p dead
    exact ⟨queued.trans wasQueued, waiting.trans wasWaiting⟩
  current cpuid p dead here := first.current cpuid p dead (second.current cpuid p ((first.dead p).2 dead) here)

theorem alter {q : Nat} (idleTask : after.idleTask = before.idleTask) (current : after.current = before.current)
    (others : ∀ p, p ≠ q -> after.tasks p = before.tasks p) (alive : ¬ Dead before q) (lives : ¬ Dead after q) :
    Moves before after where
  idleTask := idleTask
  dead p := by
    by_cases here : p = q
    · subst here
      exact iff_of_false lives alive
    · rw [Dead, others p here, Dead]
  links p dead := by
    have apart : p ≠ q := by
      rintro rfl
      exact alive dead
    rw [others p apart]
    exact ⟨rfl, rfl⟩
  current cpuid p _ here := by rwa [current] at here

end Moves

theorem not_dead_of_running {state : State} {p : Nat} (running : (state.tasks p).state = taskRunning) :
    ¬ Dead state p := by
  rw [Dead, running]
  decide

structure Settled (maxCpus : Nat) (state : State) : Prop where
  located : ∃ loc, Located maxCpus state loc
  out : ∀ p, Dead state p -> (state.tasks p).queued = false ∧ (state.tasks p).waiting = false

variable {maxCpus cpuid : Nat} {before after : State}

theorem Settled.moves (settled : Settled maxCpus before) (moves : Moves before after)
    (located : ∃ loc, Located maxCpus after loc) : Settled maxCpus after where
  located := located
  out p dead := by
    have was := (moves.dead p).1 dead
    rw [(moves.links p was).1, (moves.links p was).2]
    exact settled.out p was

theorem Settled.idle_alive (settled : Settled maxCpus before) (inside : cpuid < maxCpus) :
    ¬ Dead before (before.idleTask cpuid) := by
  obtain ⟨loc, located⟩ := settled.located
  intro dead
  rcases (located.idle inside).2 with running | fixed
  · exact not_dead_of_running running dead
  · rw [dead] at fixed
    exact absurd fixed (by decide)

theorem Settled.queued_alive (settled : Settled maxCpus before) {p : Nat} (listed : p ∈ before.runQueue cpuid) :
    ¬ Dead before p := by
  obtain ⟨loc, located⟩ := settled.located
  intro dead
  have queued := (located.seen p).shows.list
  rw [located.listed.1 listed, (settled.out p dead).1] at queued
  cases queued

variable {q myCpuid prev : Nat} {argCpuid ret : Int}

theorem addToRunqueue_frame (added : addToRunqueue maxCpus before myCpuid q argCpuid = some (ret, after)) :
    after.idleTask = before.idleTask ∧ after.current = before.current ∧
      (∀ p, p ≠ q -> after.tasks p = before.tasks p) ∧ (after.tasks q).state = taskRunning := by
  obtain ⟨⟨target, chosen⟩, choice, rest⟩ := bind_iff.1 added
  obtain ⟨-, -, rest⟩ := bind_iff.1 rest
  obtain ⟨-, -, rest⟩ := bind_iff.1 rest
  cases rest
  have kept : chosen.idleTask = before.idleTask ∧ chosen.current = before.current ∧
      ∀ p, p ≠ q -> chosen.tasks p = before.tasks p := by
    simp only [chooseCpu] at choice
    split at choice
    next =>
      split at choice
      next => cases choice
      split at choice <;> cases choice
      next => exact ⟨rfl, rfl, fun _ _ => rfl⟩
      next => exact ⟨rfl, rfl, fun p apart => by simp [State.setTask, apart]⟩
    next =>
      split at choice <;> cases choice
      exact ⟨rfl, rfl, fun _ _ => rfl⟩
  refine ⟨kept.1, kept.2.1, fun p apart => ?_, by simp [State.enqueue, State.setTask]⟩
  rw [← kept.2.2 p apart]
  simp [State.enqueue, State.setTask, apart]

theorem addToRunqueue_moves (alive : ¬ Dead before q)
    (added : addToRunqueue maxCpus before myCpuid q argCpuid = some (ret, after)) : Moves before after := by
  obtain ⟨idleTask, current, others, running⟩ := addToRunqueue_frame added
  exact .alter idleTask current others alive (not_dead_of_running running)

theorem setTask_moves {task : Task} (alive : ¬ Dead before q) (lives : task.state ≠ taskDead) :
    Moves before (before.setTask q task) :=
  .alter rfl rfl (fun p apart => by simp [State.setTask, apart]) alive (by simpa [Dead, State.setTask] using lives)

theorem unlink_moves {target : Nat} (alive : ¬ Dead before q) : Moves before (before.unlink target q) :=
  .alter rfl rfl (fun p apart => by simp [State.unlink, State.setTask, apart]) alive
    (by simpa [Dead, State.unlink, State.setTask] using alive)

theorem pickNext_moves (settled : Settled maxCpus before) (inside : cpuid < maxCpus) {found : Option Nat}
    (picked : pickNext maxCpus before cpuid = some (found, after)) :
    Moves before after ∧ ∀ q, found = some q -> ¬ Dead before q := by
  rw [pickNext] at picked
  split at picked
  next =>
    cases picked
    refine ⟨.refl _, ?_⟩
    rintro q same
    cases same
    exact settled.idle_alive inside
  next =>
    obtain ⟨loc, located⟩ := settled.located
    have unnamed : ∀ q, (none : Option Nat) = some q -> q ∈ before.runQueue cpuid := by simp
    rcases located.delFromRunqueue inside (.inl ⟨rfl, rfl⟩) unnamed with empty | ⟨q, listed, taken⟩
    · rw [empty] at picked
      cases picked
      exact ⟨.refl _, by simp⟩
    have alive := settled.queued_alive listed
    simp only [taken, some_bind, dismiss] at picked
    split at picked
    next =>
      obtain ⟨⟨ret, queued⟩, added, same⟩ := bind_iff.1 picked
      cases same
      have unlinked : Moves before (before.unlink cpuid q) := unlink_moves alive
      have removed := mt (unlinked.dead q).1 alive
      have tuned : Moves (before.unlink cpuid q) ((before.unlink cpuid q).setTask q
          { (before.unlink cpuid q).tasks q with allocatedCpu := ((before.unlink cpuid q).tasks q).stickToCpu }) :=
        setTask_moves removed removed
      have moves := unlinked.trans tuned
      exact ⟨moves.trans (addToRunqueue_moves (mt (moves.dead q).1 alive) added), by simp⟩
    next =>
      cases picked
      refine ⟨unlink_moves alive, ?_⟩
      rintro q same
      cases same
      exact alive

theorem putBack_moves (put : putBack maxCpus before cpuid prev = some after) : Moves before after := by
  simp only [putBack] at put
  split at put
  next =>
    cases put
    exact .refl _
  next alive =>
    split at put
    next =>
      obtain ⟨-, -, rest⟩ := bind_iff.1 put
      obtain ⟨⟨ret, queued⟩, added, same⟩ := bind_iff.1 rest
      cases same
      have freed : Moves before (before.setTask prev { before.tasks prev with currentCpu := noCpu }) :=
        setTask_moves alive alive
      exact freed.trans (addToRunqueue_moves (mt (freed.dead prev).1 alive) added)
    next =>
      cases put
      exact .refl _

theorem switchTo_moves {next : Nat} (alive : ¬ Dead before next) :
    Moves before (before.switchTo cpuid prev next) := by
  have same (p : Nat) : ((before.switchTo cpuid prev next).tasks p).state = (before.tasks p).state ∧
      ((before.switchTo cpuid prev next).tasks p).queued = (before.tasks p).queued ∧
      ((before.switchTo cpuid prev next).tasks p).waiting = (before.tasks p).waiting := by
    by_cases isPrev : p = prev <;> by_cases isNext : p = next <;>
      simp_all [State.switchTo, State.setTask, update_apply]
  refine ⟨rfl, fun p => by rw [Dead, (same p).1, Dead], fun p _ => (same p).2, fun other p dead here => ?_⟩
  change update before.current cpuid next other = p at here
  by_cases own : other = cpuid
  · rw [own, update_self] at here
    exact absurd (here ▸ dead) alive
  · rwa [update_of_ne own] at here

theorem schedule_moves (settled : Settled maxCpus before) (inside : cpuid < maxCpus)
    (ran : schedule maxCpus before cpuid = some after) :
    Moves before after ∧ ¬ Dead before (after.current cpuid) := by
  simp only [schedule] at ran
  split at ran
  next fixed =>
    cases ran
    refine ⟨.refl _, fun dead => ?_⟩
    rw [dead] at fixed
    exact absurd fixed (by decide)
  next =>
    obtain ⟨⟨found, between⟩, picked, rest⟩ := bind_iff.1 ran
    obtain ⟨moves, living⟩ := pickNext_moves settled inside picked
    obtain ⟨loc, located⟩ := settled.located
    obtain ⟨_, _, _, again, finds⟩ := located.pickNext inside
    cases picked.symm.trans again
    generalize chosen : found.getD
      (if (between.tasks (before.current cpuid)).state = taskRunning then before.current cpuid
      else between.idleTask cpuid) = next at rest
    have alive : ¬ Dead before next := by
      subst chosen
      cases found with
      | some q => exact living q rfl
      | none =>
        split
        next running => exact mt (moves.dead _).2 (not_dead_of_running running)
        rw [moves.idleTask]
        exact settled.idle_alive inside
    split at rest
    next same =>
      split_ifs at rest
      cases rest
      rw [finds.current, same]
      exact ⟨moves, alive⟩
    next =>
      obtain ⟨back, put, switched⟩ := bind_iff.1 rest
      cases switched
      have moved := moves.trans (putBack_moves put)
      refine ⟨moved.trans (switchTo_moves (mt (moved.dead next).1 alive)), ?_⟩
      change ¬ Dead before (update back.current cpuid next cpuid)
      rwa [update_self]

theorem waitInternal_moves (alive : ¬ Dead before (before.current cpuid))
    (waited : waitInternal before cpuid = some after) : Moves before after := by
  simp only [waitInternal] at waited
  split_ifs at waited
  cases waited
  have tuned : Moves before (before.setTask (before.current cpuid)
      { before.tasks (before.current cpuid) with state := taskInterruptible, waiting := true }) :=
    setTask_moves alive (show taskInterruptible ≠ taskDead by decide)
  exact { tuned with }

end JinyKernel.Exit
