import JinyKernel.Sched.Model
import JinyKernel.Shared.Filing

namespace JinyKernel.Sched

open Function List Updates

-- A task that is `leaving` has put itself on a wait queue and still runs.
inductive Loc where
  | cpu (cpuid : Nat)
  | leaving (cpuid : Nat)
  | queue (cpuid : Nat)
  | asleep
  | nowhere
  deriving DecidableEq

namespace Loc

@[simp] def seat : Loc -> Option Nat
  | cpu cpuid => some cpuid
  | leaving cpuid => some cpuid
  | _ => none

@[simp] def list : Loc -> Option Nat
  | queue cpuid => some cpuid
  | _ => none

@[simp] def waits : Loc -> Bool
  | leaving _ => true
  | asleep => true
  | _ => false

@[simp] def off : Loc -> Loc
  | leaving _ => asleep
  | _ => nowhere

end Loc

structure Shows (task : Task) (loc : Loc) : Prop where
  seat : task.currentCpu = loc.seat.getD noCpu
  list : task.queued = loc.list.isSome
  waits : task.waiting = loc.waits
  blocked : ∀ cpuid, loc = .leaving cpuid -> task.state = taskInterruptible

structure Homed (maxCpus : Nat) (task : Task) : Prop where
  allocated : task.allocatedCpu < maxCpus
  stick : task.stickToCpu = noCpu ∨ task.stickToCpu < maxCpus

def Ready (task : Task) : Prop := task.state = taskRunning ∨ task.state &&& taskNonpreemptive ≠ 0

structure Seen (maxCpus : Nat) (state : State) (p : Nat) (task : Task) (loc : Loc) : Prop where
  shows : Shows task loc
  home : Homed maxCpus task
  seat : ∀ cpuid, loc.seat = some cpuid -> cpuid < maxCpus ∧ state.current cpuid = p
  locked : ∀ cpuid, loc = .leaving cpuid -> state.schedLock cpuid = true
  idle : ∀ cpuid < maxCpus, state.idleTask cpuid = p -> (loc = .cpu cpuid ∨ loc = .nowhere) ∧ Ready task

structure Located (maxCpus : Nat) (state : State) (loc : Nat -> Loc) : Prop where
  seen : ∀ p, Seen maxCpus state p (state.tasks p) (loc p)
  seated : ∀ cpuid < maxCpus, (loc (state.current cpuid)).seat = some cpuid
  filed : Filing.Filed state.runQueue fun p => (loc p).list
  lengths : ∀ cpuid, state.runQueueLength cpuid = (state.runQueue cpuid).length
  distinct : ∀ cpuid < maxCpus, ∀ other < maxCpus, state.idleTask cpuid = state.idleTask other -> cpuid = other

variable {maxCpus : Nat} {state : State} {loc : Nat -> Loc} {cpuid p : Nat}

theorem Located.listed (located : Located maxCpus state loc) : p ∈ state.runQueue cpuid ↔ loc p = .queue cpuid := by
  rw [located.filed.agrees]
  cases loc p <;> simp

theorem update_list (l : Loc) : (fun q => (update loc p l q).list) = update (fun q => (loc q).list) p l.list :=
  funext (apply_update (fun _ => Loc.list) loc p l)

variable (located : Located maxCpus state loc)

include located

theorem Located.move {task : Task} {l : Loc} (shows : Shows task l)
    (home : Homed maxCpus task) (seat : l.seat = (loc p).seat) {schedLock : Nat -> Bool}
    (locks : ∀ cpuid, state.schedLock cpuid = true -> schedLock cpuid = true)
    (leaves : ∀ cpuid, l = .leaving cpuid -> schedLock cpuid = true)
    (idle : ∀ cpuid < maxCpus, state.idleTask cpuid = p -> (l = .cpu cpuid ∨ l = .nowhere) ∧ Ready task)
    {runQueue : Nat -> List Nat} (filed : Filing.Filed runQueue (update (fun q => (loc q).list) p l.list))
    {runQueueLength : Nat -> Int} (lengths : ∀ cpuid, runQueueLength cpuid = (runQueue cpuid).length) :
    Located maxCpus { state with
      tasks := update state.tasks p task, runQueue := runQueue, runQueueLength := runQueueLength,
      schedLock := schedLock } (update loc p l) where
  seen := both (Seen maxCpus _) ⟨shows, home, seat ▸ (located.seen p).seat, leaves, idle⟩ fun q _ =>
    { located.seen q with locked := fun cpuid going => locks cpuid ((located.seen q).locked cpuid going) }
  seated cpuid inside := by
    by_cases here : state.current cpuid = p
    · rw [here, update_self, seat, ← here, located.seated cpuid inside]
    · rw [update_of_ne here, located.seated cpuid inside]
  filed := by
    rw [update_list]
    exact filed
  lengths := lengths
  distinct := located.distinct

theorem Located.idle (inside : cpuid < maxCpus) : (loc (state.idleTask cpuid) = .cpu cpuid ∨
    loc (state.idleTask cpuid) = .nowhere) ∧ Ready (state.tasks (state.idleTask cpuid)) :=
  (located.seen _).idle cpuid inside rfl

theorem Located.not_idle {other : Nat} (inside : other < maxCpus)
    (here : (loc p).list.isSome ∨ (loc p).waits = true) : state.idleTask other ≠ p := by
  rintro rfl
  rcases (located.idle inside).1 with running | resting <;> simp_all

theorem Located.retune {task : Task} (shows : Shows task (loc p))
    (home : Homed maxCpus task) (ready : (∃ cpuid < maxCpus, state.idleTask cpuid = p) -> Ready task) :
    Located maxCpus (state.setTask p task) loc := by
  have filed := located.filed
  rw [← update_eq_self p fun q => (loc q).list] at filed
  have moved := located.move shows home rfl (fun _ => id) (located.seen p).locked (fun cpuid inside here =>
    ⟨((located.seen p).idle cpuid inside here).1, ready ⟨cpuid, inside, here⟩⟩) filed located.lengths
  rwa [update_eq_self] at moved

theorem Located.enqueue (loose : loc p = .nowhere)
    (notIdle : ∀ other < maxCpus, state.idleTask other ≠ p) (cpuid : Nat) :
    Located maxCpus (state.enqueue cpuid p) (update loc p (.queue cpuid)) := by
  have before := (located.seen p).shows
  rw [loose] at before
  have shows : Shows { state.tasks p with queued := true, state := taskRunning } (.queue cpuid) :=
    ⟨before.seat, rfl, before.waits, by simp⟩
  have home : Homed maxCpus { state.tasks p with queued := true, state := taskRunning } :=
    { (located.seen p).home with }
  have filed := located.filed.put cpuid p (by rw [loose]; rfl) (perm_append_singleton p (state.runQueue cpuid))
  refine located.move shows home (by simp [loose]) (fun _ => id) (by simp)
    (fun other there here => absurd here (notIdle other there)) filed fun other => ?_
  by_cases same : other = cpuid
  · subst same
    simp [located.lengths]
  · simp [same, located.lengths]

theorem Located.unlink (listed : p ∈ state.runQueue cpuid) :
    Located maxCpus (state.unlink cpuid p) (update loc p .nowhere) := by
  have here := located.listed.1 listed
  have before := (located.seen p).shows
  rw [here] at before
  have shows : Shows { state.tasks p with queued := false } .nowhere := ⟨before.seat, rfl, before.waits, by simp⟩
  have home : Homed maxCpus { state.tasks p with queued := false } :=
    { (located.seen p).home with }
  refine located.move shows home (by simp [here]) (fun _ => id) (by simp)
    (fun other there same => absurd same (located.not_idle there (by simp [here]))) (located.filed.take p) fun other => ?_
  by_cases same : other = cpuid
  · subst same
    have long := length_pos_of_mem listed
    rw [update_self, located.lengths, length_erase_of_mem listed]
    omega
  · have absent : p ∉ state.runQueue other := by
      rw [located.listed, here]
      simpa using Ne.symm same
    rw [update_of_ne same, located.lengths, erase_of_not_mem absent]

theorem Located.switchTo {next : Nat} (inside : cpuid < maxCpus)
    (loose : loc next = .nowhere) (idle : ∀ other < maxCpus, state.idleTask other = next -> other = cpuid) :
    Located maxCpus (state.switchTo cpuid (state.current cpuid) next)
      (update (update loc next (.cpu cpuid)) (state.current cpuid) (loc (state.current cpuid)).off) := by
  have seated := located.seated cpuid inside
  generalize prevIs : state.current cpuid = prev at seated ⊢
  have apart : prev ≠ next := by
    rintro rfl
    rw [loose] at seated
    cases seated
  have tasks : (state.switchTo cpuid prev next).tasks = update (update state.tasks next
      { state.tasks next with currentCpu := cpuid }) prev { state.tasks prev with currentCpu := noCpu } := by
    simp [State.switchTo, State.setTask, apart]
  have elsewhere {q other : Nat} (sits : (loc q).seat = some other) (notPrev : q ≠ prev) : other ≠ cpuid := by
    rintro rfl
    exact notPrev (((located.seen q).seat other sits).2.symm.trans prevIs)
  constructor
  case seen =>
    rw [tasks]
    refine both (Seen maxCpus _) ?_ fun q isPrev => both (fun q task l => q ≠ prev -> Seen maxCpus _ q task l) ?_
      (fun q _ isPrev => ?_) q isPrev
    · obtain ⟨before, home, -, -, rests⟩ := located.seen prev
      refine ⟨?_, { home with }, fun other sits => ?_, fun other going => ?_, fun other there isIdle => ?_⟩
      · cases here : loc prev <;> rw [here] at before seated <;>
          first | exact ⟨rfl, before.list, before.waits, by simp⟩ | cases seated
      · cases here : loc prev <;> simp [here] at sits
      · cases here : loc prev <;> simp [here] at going
      · obtain ⟨running | resting, ready⟩ := rests other there isIdle <;> exact ⟨by simp [*], ready⟩
    · obtain ⟨before, home, -, -, rests⟩ := located.seen next
      rw [loose] at before
      refine fun _ => ⟨⟨rfl, before.list, before.waits, by simp⟩, { home with }, fun other sits => ?_, by simp,
        fun other there isIdle => ⟨.inl (by rw [idle other there isIdle]), (rests other there isIdle).2⟩⟩
      cases sits
      exact ⟨inside, update_self ..⟩
    · obtain ⟨before, home, seat, locked, rests⟩ := located.seen q
      have apart {other : Nat} (sits : (loc q).seat = some other) : other ≠ cpuid := elsewhere sits isPrev
      refine ⟨before, home, fun other sits => ?_, fun other going => ?_, rests⟩
      · exact ⟨(seat other sits).1, (update_of_ne (apart sits) ..).trans (seat other sits).2⟩
      · exact (update_of_ne (apart (by rw [going]; rfl)) ..).trans (locked other going)
  case seated =>
    intro other there
    change (update (update loc next (.cpu cpuid)) prev _ (update state.current cpuid next other)).seat = some other
    by_cases here : other = cpuid
    · simp [here, apart.symm]
    have sits := located.seated other there
    rw [update_of_ne here, update_of_ne, update_of_ne]
    · exact sits
    · intro isNext
      rw [isNext, loose] at sits
      cases sits
    · intro isPrev
      rw [isPrev, seated] at sits
      exact here (Option.some.inj sits).symm
  case filed =>
    have offList : (loc prev).off.list = (loc prev).list := by
      cases here : loc prev <;> rw [here] at seated <;> first | rfl | cases seated
    rw [funext (same Loc.list (by rwa [update_of_ne apart])), funext (same Loc.list (by rw [loose]; rfl))]
    exact located.filed
  case lengths => exact located.lengths
  case distinct => exact located.distinct

end JinyKernel.Sched
