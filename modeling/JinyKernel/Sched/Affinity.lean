import JinyKernel.Sched.Run

namespace JinyKernel.Sched

open Run

structure Removes (state : State) (cpuid p : Nat) : Prop where
  preemptive : (state.tasks (state.current cpuid)).state &&& taskNonpreemptive = 0
  serves : cpuid = 0 ∨ state.active cpuid = true
  counted : state.runQueueLength cpuid ≠ 0
  first : (state.runQueue cpuid).head? = some p

structure BoundElsewhere (maxCpus : Nat) (state : State) (cpuid p target : Nat) : Prop where
  stick : (state.tasks p).stickToCpu = target
  named : target ≠ noCpu
  inside : target < maxCpus
  active : state.active target = true
  other : target ≠ cpuid

section

variable {maxCpus : Nat} {state next : State} {cpuid p : Nat}

theorem addToRunqueue_listed {ret : Int} (added : addToRunqueue maxCpus state cpuid p (-99) = some (ret, next)) :
    p ∈ next.runQueue cpuid ∧ ∀ q other, q ∈ state.runQueue other -> q ∈ next.runQueue other := by
  have isNext : next = state.enqueue cpuid p := by
    by_cases loose : (state.tasks p).currentCpu = noCpu ∧ (state.tasks p).queued = false
    · rw [addToRunqueue_eq rfl loose] at added
      exact (congrArg Prod.snd (Option.some.inj added)).symm
    by_cases unqueued : (state.tasks p).queued = false
    · have busy : (state.tasks p).currentCpu ≠ noCpu := fun resting => loose ⟨resting, unqueued⟩
      simp [addToRunqueue, chooseCpu, guard, unqueued, busy] at added
    · simp [addToRunqueue, chooseCpu, guard, unqueued] at added
  subst isNext
  refine ⟨by simp [State.enqueue], fun q other listed => ?_⟩
  by_cases here : other = cpuid
  · subst here
    simp [State.enqueue, listed]
  · simpa [State.enqueue, State.setTask, here] using listed

theorem putBack_listed {prev : Nat} (put : putBack maxCpus state cpuid prev = some next) {q other : Nat}
    (listed : q ∈ state.runQueue other) : q ∈ next.runQueue other := by
  rw [putBack] at put
  split at put
  next => exact Option.some.inj put ▸ listed
  split at put
  next =>
    obtain ⟨-, -, rest⟩ := bind_iff.1 put
    obtain ⟨⟨ret, after⟩, added, same⟩ := bind_iff.1 rest
    cases same
    exact (addToRunqueue_listed added).2 q other listed
  next => exact Option.some.inj put ▸ listed

theorem schedule_listed (inside : cpuid < maxCpus) {target : Nat} (removes : Removes state cpuid p)
    (bound : BoundElsewhere maxCpus state cpuid p target) (ran : schedule maxCpus state cpuid = some next) :
    p ∈ next.runQueue cpuid := by
  have fixed := not_not.2 removes.preemptive
  have serves : ¬ (cpuid ≠ 0 ∧ state.active cpuid = false) := by
    rintro ⟨notBoot, inactive⟩
    rcases removes.serves with boot | active
    · exact notBoot boot
    · rw [inactive] at active
      cases active
  have taken : delFromRunqueue maxCpus state cpuid none (-99) = some (some p, state.unlink cpuid p) := by
    have range : (0 : Int) ≤ cpuid ∧ (cpuid : Int) < maxCpus := by omega
    simp [delFromRunqueue, range, removes.counted, removes.first]
  have sticks : ((state.unlink cpuid p).tasks p).stickToCpu ≠ noCpu ∧
      ((state.unlink cpuid p).tasks p).stickToCpu ≠ cpuid := by
    simp only [State.unlink, State.setTask, Function.update_self, bound.stick]
    exact ⟨bound.named, bound.other⟩
  rw [schedule, if_neg fixed, pickNext, if_neg serves, taken] at ran
  obtain ⟨⟨found, after⟩, dismissed, rest⟩ := bind_iff.1 ran
  simp only [some_bind, dismiss, if_pos sticks] at dismissed
  obtain ⟨⟨ret, requeued⟩, added, same⟩ := bind_iff.1 dismissed
  cases same
  have listed := (addToRunqueue_listed added).1
  dsimp only at rest
  generalize Option.getD none _ = chosen at rest
  split at rest
  next =>
    split at rest
    next => exact Option.some.inj rest ▸ listed
    next => cases rest
  next =>
    obtain ⟨back, put, switched⟩ := bind_iff.1 rest
    cases switched
    exact putBack_listed put listed

end

theorem affinity_iff (maxCpus cpuid : Nat) (state next : State) (inside : cpuid < maxCpus)
    (ran : schedule maxCpus state cpuid = some next) :
    (∀ p target, Removes state cpuid p -> BoundElsewhere maxCpus state cpuid p target ->
      p ∈ next.runQueue target ∧ ∀ other, other ≠ target -> p ∉ next.runQueue other) ↔
    ¬ ∃ p target, Removes state cpuid p ∧ BoundElsewhere maxCpus state cpuid p target := by
  constructor
  · rintro sent ⟨p, target, removes, bound⟩
    have listed := schedule_listed inside removes bound ran
    exact (sent p target removes bound).2 cpuid (Ne.symm bound.other) listed
  · intro unbound p target removes bound
    exact absurd ⟨p, target, removes, bound⟩ unbound

theorem affinity_iff_own : ∃ next, Removes queuedBoth 1 3 ∧ schedule 2 queuedBoth 1 = some next ∧
    ∀ p target, Removes queuedBoth 1 p -> BoundElsewhere 2 queuedBoth 1 p target ->
      p ∈ next.runQueue target ∧ ∀ other, other ≠ target -> p ∉ next.runQueue other := by
  refine ⟨_, ⟨rfl, .inr rfl, by decide, rfl⟩, rfl, (affinity_iff 2 1 queuedBoth _ (by decide) rfl).2 ?_⟩
  rintro ⟨p, target, removes, bound⟩
  obtain rfl : 3 = p := Option.some.inj removes.first
  exact bound.other bound.stick.symm

theorem bound_task_stays : ∃ state next, Reaches 2 state ∧ schedule 2 state 0 = some next ∧
    Removes state 0 2 ∧ BoundElsewhere 2 state 0 2 1 ∧ next.runQueue 0 = [2] ∧ next.runQueue 1 = [] :=
  ⟨queuedTwo, _, queuedTwo_reaches, rfl, ⟨rfl, .inl rfl, by decide, rfl⟩, ⟨rfl, by decide, by decide, rfl, by decide⟩,
    rfl, rfl⟩

end JinyKernel.Sched
