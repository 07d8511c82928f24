import Mathlib.Data.Option.Basic

-- `none`: the machine stops for good; `allowed` is the contract of the callers.

namespace Run

variable {State Event : Type}

inductive Reachable (init : State -> Prop) (step : State -> Event -> Option State)
    (allowed : State -> Event -> Prop) : State -> Prop
  | start {state : State} : init state -> Reachable init step allowed state
  | next {state next : State} {event : Event} :
      Reachable init step allowed state -> allowed state event ->
        step state event = some next -> Reachable init step allowed next

variable {init : State -> Prop} {step : State -> Event -> Option State}
  {allowed : State -> Event -> Prop}

theorem Reachable.invariant {inv : State -> Prop} (initial : ∀ state, init state -> inv state)
    (preserved : ∀ state event next, inv state -> allowed state event ->
      step state event = some next -> inv next)
    {state : State} (reached : Reachable init step allowed state) : inv state := by
  induction reached with
  | start first => exact initial _ first
  | next _ may moved ih => exact preserved _ _ _ ih may moved

-- An invariant under which allowed events never halt.
theorem Reachable.progress {inv : State -> Prop} (initial : ∀ state, init state -> inv state)
    (advance : ∀ state event, inv state -> allowed state event ->
      ∃ next, step state event = some next ∧ inv next)
    {state : State} (reached : Reachable init step allowed state) :
    inv state ∧ ∀ event, allowed state event -> (step state event).isSome := by
  have holds : inv state := reached.invariant initial fun state event next before may moved => by
    obtain ⟨other, moves, after⟩ := advance state event before may
    rw [moved] at moves
    cases moves
    exact after
  refine ⟨holds, fun event may => ?_⟩
  obtain ⟨next, moves, _⟩ := advance state event holds may
  simp [moves]

theorem Reachable.foldlM {state last : State} {events : List Event} (reached : Reachable init step allowed state)
    (may : ∀ event ∈ events, ∀ state, allowed state event) (ran : events.foldlM step state = some last) :
    Reachable init step allowed last := by
  induction events generalizing state with
  | nil =>
    cases ran
    exact reached
  | cons event rest ih =>
    obtain ⟨next, moved, ran⟩ := Option.bind_eq_some_iff.1 ran
    exact ih (.next reached (may event (by simp) state) moved) (fun other among => may other (by simp [among])) ran

theorem Reachable.checked {check : State -> Event -> Bool}
    (sound : ∀ state event, Reachable init step allowed state -> check state event = true -> allowed state event)
    {state last : State} {events : List Event} (reached : Reachable init step allowed state)
    (ran : events.foldlM (fun state event => if check state event then step state event else none) state = some last) :
    Reachable init step allowed last := by
  induction events generalizing state with
  | nil =>
    cases ran
    exact reached
  | cons event rest ih =>
    rw [List.foldlM_cons] at ran
    obtain ⟨next, moved, ran⟩ := Option.bind_eq_some_iff.1 ran
    split at moved
    next may => exact ih (.next reached (sound state event reached may) moved) ran
    next => cases moved

theorem Reachable.mono {wider : State -> Event -> Prop} (weaken : ∀ state event, allowed state event -> wider state event)
    {state : State} (reached : Reachable init step allowed state) : Reachable init step wider state := by
  induction reached with
  | start first => exact .start first
  | next _ may moved ih => exact .next ih (weaken _ _ may) moved

theorem guard_bind {Result : Type} {condition : Prop} [Decidable condition] (holds : condition)
    (rest : Unit -> Option Result) : (guard condition >>= rest) = rest () := by
  simp [guard, holds]

variable {A B : Type} {x : Option A} {f : A -> Option B}

theorem some_bind (a : A) : (some a >>= f) = f a := rfl

theorem bind_iff {b : B} : (x >>= f) = some b ↔ ∃ a, x = some a ∧ f a = some b := Option.bind_eq_some_iff

theorem holds_of_any {holds : A -> Prop} [DecidablePred holds] (outcome : (x.any fun a => holds a) = true) :
    ∃ a, x = some a ∧ holds a := by
  simpa [Option.any_eq_true] using outcome

end Run
