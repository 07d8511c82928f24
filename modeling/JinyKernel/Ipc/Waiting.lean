import JinyKernel.Shared.Run

-- `SYS_futex` (kernel/ipc.cc) on one futex: a section under its spinlock is one step.

namespace JinyKernel.Ipc.Waiting

open Function Run

def maxRetries : Nat := 1000

inductive Phase where
  | away
  | looping (val : Int) (retries : Nat)
  | checked (val : Int) (retries : Nat)
  | asleep (val : Int) (retries : Nat)
  deriving DecidableEq

def Phase.resumed : Phase -> Phase
  | asleep val retries => looping val (retries + 1)
  | phase => phase

-- `read` is the step in which a task last read `*uaddr`, `woke` the last `FUTEX_WAKE`.
structure State where
  value : Int
  tasks : Nat -> Phase
  queue : List Nat
  now : Nat
  read : Nat -> Nat
  woke : Nat

inductive Event where
  | wait (t : Nat) (val : Int)
  | check (t : Nat)
  | locked (t : Nat)
  | timer (t : Nat)
  | store (value : Int)
  | wake

namespace State

def goto (s : State) (t : Nat) (phase : Phase) : State := { s with tasks := update s.tasks t phase }

def reads (s : State) (t : Nat) : State := { s with read := update s.read t (s.now + 1) }

def dequeue (s : State) (t : Nat) : State := { s.goto t (s.tasks t).resumed with queue := s.queue.erase t }

-- The loop of `wait_queue::wakeup`.
def wakeup (s : State) : State := s.queue.foldl dequeue s

end State

def act (s : State) : Event -> State
  | .wait t val => if s.tasks t = .away then s.goto t (.looping val 0) else s
  | .check t =>
    match s.tasks t with
    | .looping val retries =>
      if maxRetries ≤ retries then s.goto t .away
      else (s.goto t (if s.value = val then .checked val retries else .away)).reads t
    | _ => s
  | .locked t =>
    match s.tasks t with
    | .checked val retries =>
      if s.value = val then { (s.goto t (.asleep val retries)).reads t with queue := s.queue ++ [t] }
      else (s.goto t .away).reads t
    | _ => s
  | .timer t => if t ∈ s.queue then s.dequeue t else s
  | .store value => { s with value := value }
  | .wake => s.wakeup

def wakeStep (s : State) : Event -> Nat
  | .wake => s.now + 1
  | _ => s.woke

def step (s : State) (event : Event) : Option State :=
  some { act s event with now := s.now + 1, woke := wakeStep s event }

structure Start (s : State) : Prop where
  queue : s.queue = []
  woke : s.woke = 0

section

variable {s next : State} {event : Event}

theorem wakeup_queue (queue : List Nat) (same : s.queue = queue) : (queue.foldl State.dequeue s).queue = [] := by
  induction queue generalizing s with
  | nil => exact same
  | cons t rest ih => exact ih (by simp [State.dequeue, same])

theorem step_queued {t : Nat} (moved : step s event = some next) (queued : t ∈ next.queue) :
    next.woke = s.woke ∧ (next.read t = s.read t ∧ t ∈ s.queue ∨ next.read t = s.now + 1 ∧
      (t ∈ s.queue ∨ ∃ val retries, s.tasks t = .checked val retries ∧ s.value = val)) := by
  cases moved
  have read {new : Prop} (other : Nat) (old : t ∈ s.queue) : update s.read other (s.now + 1) t = s.read t ∧ t ∈ s.queue ∨
      update s.read other (s.now + 1) t = s.now + 1 ∧ (t ∈ s.queue ∨ new) := by
    by_cases same : t = other
    · exact .inr ⟨same ▸ update_self .., .inl old⟩
    · exact .inl ⟨update_of_ne same .., old⟩
  generalize done : act s event = after at queued ⊢
  cases event with
  | wait other val =>
    rw [act] at done
    split at done <;> subst done <;> exact ⟨rfl, .inl ⟨rfl, queued⟩⟩
  | check other =>
    rw [act] at done
    split at done
    next =>
      split at done <;> subst done
      next => exact ⟨rfl, .inl ⟨rfl, queued⟩⟩
      next => exact ⟨rfl, read other queued⟩
    next => exact ⟨rfl, .inl (done ▸ ⟨rfl, done ▸ queued⟩)⟩
  | locked other =>
    rw [act] at done
    split at done
    next val retries checked =>
      split at done <;> subst done
      next equal =>
        rcases List.mem_append.1 queued with old | new
        · exact ⟨rfl, read other old⟩
        · obtain rfl := List.mem_singleton.1 new
          exact ⟨rfl, .inr ⟨update_self .., .inr ⟨val, retries, checked, equal⟩⟩⟩
      next => exact ⟨rfl, read other queued⟩
    next => exact ⟨rfl, .inl (done ▸ ⟨rfl, done ▸ queued⟩)⟩
  | timer other =>
    rw [act] at done
    split at done <;> subst done
    next => exact ⟨rfl, .inl ⟨rfl, List.mem_of_mem_erase queued⟩⟩
    next => exact ⟨rfl, .inl ⟨rfl, queued⟩⟩
  | store value =>
    subst done
    exact ⟨rfl, .inl ⟨rfl, queued⟩⟩
  | wake =>
    rw [← done, act, State.wakeup, wakeup_queue s.queue rfl] at queued
    cases queued

theorem step_inv (inv : (∀ t ∈ s.queue, s.woke < s.read t) ∧ s.woke ≤ s.now) (moved : step s event = some next) :
    (∀ t ∈ next.queue, next.woke < next.read t) ∧ next.woke ≤ next.now := by
  refine ⟨fun t queued => ?_, ?_⟩
  · obtain ⟨woke, ⟨read, old⟩ | ⟨read, _⟩⟩ := step_queued moved queued
    · rw [woke, read]
      exact inv.1 t old
    · rw [woke, read]
      exact Nat.lt_succ_of_le inv.2
  · cases moved
    cases event with
    | wake => exact Nat.le_refl _
    | _ => exact Nat.le_succ_of_le inv.2

end

theorem futex_wake_kept (s : State) (reached : Reachable Start step (fun _ _ => True) s) :
    (∀ t ∈ s.queue, s.woke < s.read t) ∧ ∀ event next t, step s event = some next -> t ∈ next.queue -> t ∉ s.queue ->
      next.read t = next.now ∧ ∃ val retries, s.tasks t = .checked val retries ∧ s.value = val := by
  have inv : (∀ t ∈ s.queue, s.woke < s.read t) ∧ s.woke ≤ s.now :=
    reached.invariant (fun s start => ⟨by simp [start.queue], by simp [start.woke]⟩) fun _ _ _ inv _ => step_inv inv
  refine ⟨inv.1, fun event next t moved queued absent => ?_⟩
  obtain ⟨_, ⟨_, old⟩ | ⟨read, old | new⟩⟩ := step_queued moved queued
  · exact absurd old absent
  · exact absurd old absent
  · cases moved
    exact ⟨read, new⟩

def idle : State := { value := 0, tasks := fun _ => .away, queue := [], now := 0, read := fun _ => 0, woke := 0 }

theorem futex_wake_kept_twice : ∃ s : State, s.woke = 5 ∧ s.queue = [1] ∧ 5 < s.read 1 := by
  have outcome : (([.wait 0 0, .check 0, .locked 0, .store 1, .wake, .wait 1 1, .check 1, .locked 1] : List Event).foldlM
      step idle).any (fun s => s.woke = 5 ∧ s.queue = [1]) = true := by
    decide +kernel
  obtain ⟨s, ran, woke, queue⟩ := holds_of_any outcome
  have reached : Reachable Start step (fun _ _ => True) s :=
    (Reachable.start ⟨rfl, rfl⟩ : Reachable Start step _ idle).foldlM (fun _ _ _ => trivial) ran
  exact ⟨s, woke, queue, woke ▸ (futex_wake_kept s reached).1 1 (by simp [queue])⟩

end JinyKernel.Ipc.Waiting
