import JinyKernel.Blk.Moves
import JinyKernel.Shared.Run

namespace JinyKernel.Blk

open Function List Option Run Updates

variable (callers : Nat)

def Allowed (_ : State) : Event -> Prop
  | .create c _ _ _ => c < callers
  | .caller c => c < callers
  | _ => True

variable (s : State)

def GoesOn : Phase -> Prop
  | .created _ _ readAhead cached => (readAhead = true -> cached = true) ∧ s.firstFree ≠ none
  | .awake _ _ start => s.jiffies - start ≤ waitLimit
  | _ => True

def Served : Event -> Prop
  | .caller c => GoesOn s (s.callers c)
  | .device _ _ code => code = 0
  | _ => True

structure Careful (event : Event) : Prop where
  allowed : Allowed callers s event
  served : Served s event
  -- the stores with which `get_from_diskreq` ends are not interrupted
  undisturbed : ∀ c < callers, (s.callers c).ending ≠ none -> event = .caller c

structure Start : Prop where
  slots : ∀ i, (s.slots i).buf = none
  callers : ∀ c, s.callers c = .away
  pc : s.pc = .look 0
  devices : ∀ dev, s.queue dev = [] ∧ s.used dev = []
  buffers : s.buffers = 0
  counts : ∀ n, s.posted n = 0 ∧ s.freed n = 0 ∧ s.taken n = 0 ∧ s.released n = 0

def State.finished (c i : Nat) : State := ((s.setState i .idle).release i).setCaller c .away

structure Ending (c i : Nat) : Prop where
  inside : c < callers
  phase : s.callers c = .returned i ∨ s.callers c = .cleared i ∧ (s.slots i).state = .idle
  occupied : (s.slots i).buf ≠ none
  tracked : ∃ place, Tracks (s.finished c i) place

structure Inv : Prop where
  clean : ∀ dev, ∀ entry ∈ s.used dev, entry.2 = 0
  outside : ∀ c, callers ≤ c -> s.callers c = .away
  tracked : (∃ place, Tracks s place) ∨ ∃ c i, Ending callers s c i

section

variable {callers : Nat} {s next : State} {place : Nat -> Place} {c i b n : Nat}

theorem Start.inv (start : Start s) : Inv callers s := by
  refine ⟨fun dev entry among => ?_, fun c _ => start.callers c, .inl ⟨fun _ => .fresh, ?_⟩⟩
  · rw [(start.devices dev).2] at among
    cases among
  have empty : boxes s = fun _ => [] := by
    funext box
    cases box with
    | marked =>
      change s.pc.mbufs = []
      rw [start.pc]
      rfl
    | queue dev => exact (start.devices dev).1
    | used dev => simp [boxes, (start.devices dev).2]
  constructor
  case placed => exact fun b => ⟨by simp [start.buffers], by simp, (start.counts b).1, (start.counts b).2.1⟩
  case slots => simp [start.slots]
  case filed =>
    rw [empty]
    exact .empty
  case holders => simp [start.callers]
  case awaited => exact ⟨fun _ => none, by simp [start.callers], by simp [Slot.request, start.slots]⟩
  case calm => simp [start.callers]
  case balance => simp [start.counts, start.slots]

theorem Tracks.completed (tracks : Tracks s place) (occupied : (s.slots i).buf = some b)
    (state : (s.slots i).state = .completed) : place b = .completed i := by
  have sits := (tracks.slots i b).1 occupied
  have states := ((tracks.placed b).sits i sits).2
  rw [state] at states
  cases here : place b <;> rw [here] at sits states <;> cases states
  cases sits
  rfl

theorem Tracks.waiting_done (tracks : Tracks s place) {reqNo start : Nat} (inside : c < callers)
    (phase : s.callers c = .waiting i reqNo start) (state : (s.slots i).state = .completed) :
    Ending callers ((s.putFreePages (s.slots i).buf).setCaller c (.returned i)) c i := by
  obtain ⟨waiter, awaited⟩ := tracks.awaited
  have waits : (s.callers c).waitsFor = some (i, reqNo) := by
    rw [phase]
    rfl
  have occupied := (tracks.waited waits).1
  obtain ⟨b, buf⟩ := ne_none_iff_exists'.1 occupied
  rw [buf]
  have slots : (((s.putFreePages (some b)).setCaller c (.returned i)).finished c i).slots =
      update s.slots i { s.slots i with buf := none, state := .idle } := by
    simp [State.finished, State.release, State.setCaller, State.setState, State.setSlot, State.putFreePages]
  have phases : (((s.putFreePages (some b)).setCaller c (.returned i)).finished c i).callers = update s.callers c .away :=
    update_idem ..
  refine ⟨inside, .inl (update_self ..), occupied, update place b .gone,
    tracks.collect (tracks.completed buf state) slots rfl rfl rfl rfl rfl rfl ?_ ?_ ?_⟩
  · rw [phases]
    exact same Phase.holds (by rw [phase]; rfl)
  · rw [phases, slots]
    refine ⟨update waiter i none, awaited.update (by simp) (fun j r other => ?_) (fun c' r other => ?_)
      (by simp [Slot.request])⟩
    · simp [phase, Ne.symm other]
    · simp [(awaited.waits c i reqNo).1 waits, Ne.symm other]
  · rw [phases]
    exact (forall_update_iff _ fun _ => (Phase.ending · = none)).2 ⟨rfl, fun c' _ => tracks.calm c'⟩

theorem Tracks.caller (tracks : Tracks s place) (inside : c < callers) (served : Served s (.caller c)) :
    (∃ after, Tracks (diskIo s c) after) ∨ ∃ i, Ending callers (diskIo s c) c i := by
  change GoesOn s (s.callers c) at served
  have calm := tracks.calm c
  rw [diskIo]
  cases phase : s.callers c <;> rw [phase] at served calm <;> dsimp only
  case away => exact .inl ⟨place, tracks⟩
  case created buf dev readAhead cached =>
    obtain ⟨usable, free⟩ := served
    obtain ⟨i, found⟩ := ne_none_iff_exists'.1 free
    obtain ⟨low, empty⟩ := firstFree_some found
    have accepted : ¬ (readAhead = true ∧ ¬ cached = true) := fun both => both.2 (usable both.1)
    rw [diskioSubmitRequests, if_neg accepted, found]
    exact .inl ⟨_, tracks.submit phase low empty⟩
  case fetching i reqNo =>
    obtain ⟨occupied, -, same⟩ := tracks.waited (c := c) (by rw [phase]; rfl)
    rw [if_pos ⟨occupied, same⟩]
    exact .inl ⟨place, tracks.recall (by rw [phase]; rfl) (by rw [phase]; rfl) rfl⟩
  case waiting i reqNo start =>
    split
    next state => exact .inr ⟨i, tracks.waiting_done inside phase state⟩
    next => exact .inl ⟨place, tracks.recall (by rw [phase]; rfl) (by rw [phase]; rfl) rfl⟩
  case awake i reqNo start =>
    rw [if_neg (Nat.not_lt.2 served)]
    exact .inl ⟨place, tracks.recall (by rw [phase]; rfl) (by rw [phase]; rfl) rfl⟩
  case returned i => cases calm
  case cleared i => cases calm

theorem Ending.step (ending : Ending callers s c i) :
    (∃ after, Tracks (diskIo s c) after) ∨ Ending callers (diskIo s c) c i := by
  obtain ⟨inside, phase, occupied, tracked⟩ := ending
  rcases phase with returned | ⟨cleared, idle⟩
  · right
    have isNext : diskIo s c = (s.setState i .idle).setCaller c (.cleared i) := by rw [diskIo, returned]
    rw [isNext]
    refine ⟨inside, .inr ⟨update_self .., ?_⟩, ?_, ?_⟩
    · simp [State.setCaller, State.setState, State.setSlot]
    · simpa [State.setCaller, State.setState, State.setSlot] using occupied
    have same : ((s.setState i .idle).setCaller c (.cleared i)).finished c i = s.finished c i := by
      simp [State.finished, State.release, State.setCaller, State.setState, State.setSlot]
    rw [same]
    exact tracked
  · left
    have isNext : diskIo s c = s.finished c i := by
      have same : s.setState i .idle = s := by
        rw [State.setState, State.setSlot, ← idle, update_eq_self]
      rw [diskIo, cleared, State.finished, same]
    rw [isNext]
    exact tracked

theorem Tracks.markSlot (tracks : Tracks s place) {i j space : Nat} {mbufs : List Nat}
    (pc : s.pc = .mark i j space mbufs) : ∃ after, Tracks (Blk.markSlot s i j space mbufs) after := by
  rw [Blk.markSlot]
  cases buf : (s.slots j).buf with
  | none => exact ⟨place, tracks.goto (by rw [pc]; rfl)⟩
  | some b =>
    dsimp only
    split
    next both =>
      have sits := (tracks.slots j b).1 buf
      have states := ((tracks.placed b).sits j sits).2
      rw [both.1] at states
      have here : place b = .ready j := by
        cases here : place b <;> rw [here] at sits states <;> cases states <;> cases sits
        rfl
      exact ⟨_, tracks.mark here (by rw [pc]; rfl)⟩
    next => exact ⟨place, tracks.goto (by rw [pc]; rfl)⟩

theorem Tracks.collectReadAhead (tracks : Tracks s place) (i : Nat) (pc : s.pc.mbufs = []) {next : Pc}
    (isNext : next.mbufs = []) : ∃ after, Tracks ((Blk.collectReadAhead s i).goto next) after := by
  rw [Blk.collectReadAhead]
  split
  next both =>
    obtain ⟨state, ahead, occupied⟩ := both
    obtain ⟨b, buf⟩ := ne_none_iff_exists'.1 occupied
    have boxed : boxes ((((s.putFreePages (some b)).setState i .idle).release i).goto next) = boxes s := by
      funext box
      cases box with
      | marked => exact isNext.trans pc.symm
      | queue dev | used dev => rfl
    have slots : ((((s.putFreePages (some b)).setState i .idle).release i).goto next).slots =
        update s.slots i { s.slots i with buf := none, state := .idle } := by
      simp [State.goto, State.release, State.setState, State.setSlot, State.putFreePages]
    obtain ⟨waiter, awaited⟩ := tracks.awaited
    rw [buf]
    refine ⟨_, tracks.collect (tracks.completed buf state) slots boxed rfl rfl rfl rfl rfl (fun _ => rfl) ⟨waiter, ?_⟩
      tracks.calm⟩
    rw [slots]
    exact awaited.congr (fun _ => rfl) (same Slot.request (by simp [Slot.request, ahead]))
  next => exact ⟨place, tracks.goto (isNext.trans pc.symm)⟩

theorem Tracks.thread (tracks : Tracks s place) (clean : ∀ dev, ∀ entry ∈ s.used dev, entry.2 = 0)
    (ran : diskioThread s n = some next) :
    (∃ after, Tracks next after) ∧ next.callers = s.callers ∧ ∀ dev, ∀ entry ∈ next.used dev, entry.2 = 0 := by
  have stays (next : Pc) (same : next.mbufs = s.pc.mbufs) : (∃ after, Tracks (s.goto next) after) ∧
      (s.goto next).callers = s.callers ∧ ∀ dev, ∀ entry ∈ (s.goto next).used dev, entry.2 = 0 :=
    ⟨⟨place, tracks.goto same⟩, rfl, clean⟩
  rw [diskioThread] at ran
  cases pc : s.pc <;> rw [pc] at ran
  case look i =>
    rw [pc] at stays
    dsimp only at ran
    split at ran
    next =>
      cases ran
      exact stays _ rfl
    split at ran
    next =>
      cases ran
      exact stays _ rfl
    next => split at ran <;> cases ran <;> exact stays _ rfl
  case mark i j space mbufs =>
    dsimp only at ran
    split at ran
    next =>
      cases ran
      refine ⟨tracks.markSlot pc, ?_⟩
      rw [Blk.markSlot]
      split
      next => split <;> exact ⟨rfl, clean⟩
      next => exact ⟨rfl, clean⟩
    next =>
      cases ran
      refine stays _ ?_
      rw [pc]
      split
      next zero => exact zero.symm
      next => rfl
  case send i mbufs =>
    cases mbufs with
    | nil =>
      cases ran
      exact stays _ (by rw [pc]; rfl)
    | cons b rest =>
      dsimp only at ran
      split at ran <;> cases ran
      next => exact stays _ (by rw [pc]; rfl)
      next => exact ⟨tracks.post (by rw [pc]; rfl) _ rfl, rfl, clean⟩
  case revert i mbufs =>
    cases mbufs with
    | nil =>
      cases ran
      exact stays _ (by rw [pc]; rfl)
    | cons b rest =>
      have mbufs : s.pc.mbufs = b :: rest := by
        rw [pc]
        rfl
      obtain ⟨m, here⟩ := tracks.first_marked mbufs
      have found : s.slotOf b = some m := tracks.slotOf (by rw [here]; rfl)
      dsimp only at ran
      rw [found] at ran
      cases ran
      exact ⟨⟨_, tracks.revert mbufs here rfl⟩, rfl, clean⟩
  case poll i =>
    dsimp only at ran
    split at ran <;> cases ran <;> exact stays _ (by rw [pc]; rfl)
  case extract i dev count =>
    cases count with
    | zero =>
      cases ran
      exact stays _ (by rw [pc]; rfl)
    | succ count =>
      dsimp only at ran
      cases used : s.used dev with
      | nil =>
        rw [used] at ran
        cases ran
        exact stays _ (by rw [pc]; rfl)
      | cons entry rest =>
        obtain ⟨b, code⟩ := entry
        have good : code = 0 := clean dev (b, code) (by rw [used]; exact mem_cons_self)
        subst good
        rw [used] at ran
        obtain ⟨done, after, completed, tracked⟩ :=
          tracks.complete used (show (Pc.extract i dev count).mbufs = s.pc.mbufs by rw [pc]; rfl)
        dsimp only at ran
        rw [completed] at ran
        cases ran
        refine ⟨⟨after, tracked⟩, ?_⟩
        obtain ⟨m, -, isDone⟩ := map_eq_some_iff.1 completed
        subst isDone
        refine ⟨rfl, fun other entry among => ?_⟩
        change entry ∈ update s.used dev rest other at among
        by_cases same : other = dev
        · subst same
          rw [update_self] at among
          exact clean other entry (by rw [used]; exact mem_cons_of_mem _ among)
        · rw [update_of_ne same] at among
          exact clean other entry among
  case finish i =>
    cases ran
    refine ⟨tracks.collectReadAhead i (by rw [pc]; rfl) rfl, ?_⟩
    rw [Blk.collectReadAhead]
    split
    next => cases (s.slots i).buf <;> exact ⟨rfl, clean⟩
    next => exact ⟨rfl, clean⟩

theorem diskIo_frame : (diskIo s c).used = s.used ∧ ∀ c', c' ≠ c -> (diskIo s c).callers c' = s.callers c' := by
  rw [diskIo]
  split
  next => exact ⟨rfl, fun _ _ => rfl⟩
  next =>
    rw [diskioSubmitRequests]
    split
    next => exact ⟨rfl, fun c' other => update_of_ne other ..⟩
    next => split <;> exact ⟨rfl, fun c' other => update_of_ne other ..⟩
  next => split <;> exact ⟨rfl, fun c' other => update_of_ne other ..⟩
  next =>
    split
    next => cases (s.slots _).buf <;> exact ⟨rfl, fun c' other => update_of_ne other ..⟩
    next => exact ⟨rfl, fun c' other => update_of_ne other ..⟩
  next => split <;> exact ⟨rfl, fun c' other => update_of_ne other ..⟩
  next => exact ⟨rfl, fun c' other => update_of_ne other ..⟩
  next => exact ⟨rfl, fun c' other => update_of_ne other ..⟩

theorem Inv.called (inv : Inv callers s) (inside : c < callers)
    (tracked : (∃ place, Tracks (diskIo s c) place) ∨ ∃ i, Ending callers (diskIo s c) c i) :
    Inv callers (diskIo s c) := by
  obtain ⟨used, others⟩ := @diskIo_frame s c
  refine ⟨used ▸ inv.clean, fun c' high => ?_, tracked.imp_right fun ending => ⟨c, ending⟩⟩
  rw [others c' (by omega)]
  exact inv.outside c' high

theorem Inv.step {event : Event} (inv : Inv callers s) (careful : Careful callers s event)
    (moved : step s event = some next) : Inv callers next := by
  rcases inv.tracked with ⟨place, tracks⟩ | ⟨c, i, ending⟩
  · cases event with
    | create c dev readAhead cached =>
      have inside : c < callers := careful.allowed
      rw [Blk.step] at moved
      split at moved <;> cases moved
      next away =>
        refine ⟨inv.clean, fun c' high => ?_, .inl ⟨_, tracks.create away dev readAhead cached⟩⟩
        change update s.callers c _ c' = _
        rw [update_of_ne (by omega)]
        exact inv.outside c' high
      next => exact inv
    | caller c =>
      have inside : c < callers := careful.allowed
      cases moved
      exact inv.called inside (tracks.caller inside careful.served)
    | thread n =>
      obtain ⟨tracked, phases, clean⟩ := tracks.thread inv.clean moved
      exact ⟨clean, phases ▸ inv.outside, .inl tracked⟩
    | device dev b code =>
      have good : code = 0 := careful.served
      subst good
      rw [Blk.step] at moved
      split at moved <;> cases moved
      next listed =>
        refine ⟨fun other entry among => ?_, inv.outside, .inl (tracks.device listed 0)⟩
        change entry ∈ update s.used dev (s.used dev ++ [(b, 0)]) other at among
        by_cases same : other = dev
        · subst same
          rw [update_self] at among
          rcases mem_append.1 among with before | last
          · exact inv.clean other entry before
          · rw [mem_singleton.1 last]
        · rw [update_of_ne same] at among
          exact inv.clean other entry among
      next => exact inv
    | elapse jiffies =>
      cases moved
      exact ⟨inv.clean, inv.outside, .inl ⟨place, tracks.elapse _⟩⟩
  · have only : event = .caller c := by
      refine careful.undisturbed c ending.inside ?_
      rcases ending.phase with returned | ⟨cleared, -⟩
      · simp [returned]
      · simp [cleared]
    subst only
    cases moved
    exact inv.called ending.inside (ending.step.imp_right fun goesOn => ⟨i, goesOn⟩)

structure Quiet (callers : Nat) (s : State) : Prop where
  returned : ∀ c < callers, s.callers c = .away
  processed : ∀ i < maxDiskReqs, (s.slots i).buf ≠ none -> (s.slots i).state = .completed ∧ (s.slots i).readAhead = false

structure Exact (callers : Nat) (s : State) : Prop where
  once : ∀ b, s.posted b ≤ 1 ∧ s.freed b ≤ 1
  finished : ∀ b, s.freed b = 1 -> s.posted b = 1 ∧ ∀ dev, b ∉ s.queue dev
  balance : ∀ i, s.taken i = s.released i + if (s.slots i).buf = none then 0 else 1
  quiet : Quiet callers s -> (∀ b < s.buffers, s.posted b = 1 ∧ s.freed b = 1) ∧
    ∀ i < maxDiskReqs, (s.slots i).buf = none ∧ s.taken i = s.released i

theorem Tracks.once (tracks : Tracks s place) (b : Nat) :
    (s.posted b ≤ 1 ∧ s.freed b ≤ 1) ∧ (s.freed b = 1 -> s.posted b = 1 ∧ ∀ dev, b ∉ s.queue dev) := by
  rw [(tracks.placed b).posted, (tracks.placed b).freed]
  have absent (gone : place b = .gone) (dev : Nat) : b ∉ s.queue dev := by
    intro listed
    have boxed := (tracks.filed.agrees b (.queue dev)).1 listed
    rw [gone] at boxed
    cases boxed
  cases here : place b with
  | boxed box i => cases box <;> simp
  | gone => simp [absent here]
  | _ => simp

theorem Tracks.quiet (tracks : Tracks s place) (outside : ∀ c, callers ≤ c -> s.callers c = .away)
    (quiet : Quiet callers s) (b : Nat) : place b = .fresh ∨ place b = .gone := by
  have away (c : Nat) : s.callers c = .away := by
    rcases Nat.lt_or_ge c callers with low | high
    · exact quiet.returned c low
    · exact outside c high
  have idle (i : Nat) (sits : (place b).slot = some i) :
      (place b).state = .completed ∧ (s.slots i).readAhead = false := by
    have processed := quiet.processed i ((tracks.placed b).sits i sits).1 (by rw [tracks.occupied sits]; simp)
    rwa [((tracks.placed b).sits i sits).2] at processed
  cases here : place b with
  | fresh => exact .inl rfl
  | gone => exact .inr rfl
  | held c =>
    have holds := (tracks.holders c b).2 here
    rw [away c] at holds
    cases holds
  | ready i | boxed box i =>
    have state := (idle i (by rw [here]; rfl)).1
    rw [here] at state
    cases state
  | completed i =>
    have sits : (place b).slot = some i := by
      rw [here]
      rfl
    obtain ⟨waiter, awaited⟩ := tracks.awaited
    have each := awaited.each i
    rw [Slot.request, if_neg (by simp [tracks.occupied sits, (idle i sits).2]), map_eq_some_iff] at each
    obtain ⟨⟨c, reqNo⟩, waits, -⟩ := each
    rw [← awaited.waits, away c] at waits
    cases waits

theorem Inv.exact (inv : Inv callers s) : Exact callers s := by
  rcases inv.tracked with ⟨place, tracks⟩ | ⟨c, i, ending⟩
  · refine ⟨fun b => (tracks.once b).1, fun b => (tracks.once b).2, tracks.balance, fun quiet => ?_⟩
    have settled := tracks.quiet inv.outside quiet
    refine ⟨fun b old => ?_, fun i _ => ?_⟩
    · rcases settled b with fresh | gone
      · exact absurd ((tracks.placed b).known.1 fresh) (by omega)
      · rw [(tracks.placed b).posted, (tracks.placed b).freed, gone]
        exact ⟨rfl, rfl⟩
    have empty : (s.slots i).buf = none := by
      cases buf : (s.slots i).buf with
      | none => rfl
      | some b =>
        have sits := (tracks.slots i b).1 buf
        rcases settled b with fresh | gone
        · simp [fresh] at sits
        · simp [gone] at sits
    exact ⟨empty, by simpa [empty] using tracks.balance i⟩
  · obtain ⟨place, tracks⟩ := ending.tracked
    refine ⟨fun b => (tracks.once b).1, fun b => (tracks.once b).2, fun j => ?_, fun quiet => ?_⟩
    · have balance := tracks.balance j
      by_cases same : j = i
      · subst same
        simp only [State.finished, State.setCaller, State.release, State.setState, State.setSlot,
          update_self] at balance
        rw [if_neg ending.occupied]
        simpa using balance
      · simpa [State.finished, State.setCaller, State.release, State.setState, State.setSlot, same] using balance
    · have away := quiet.returned c ending.inside
      rcases ending.phase with returned | ⟨cleared, -⟩
      · rw [returned] at away
        cases away
      · rw [cleared] at away
        cases away

end

instance (callers : Nat) (s : State) : (event : Event) -> Decidable (Allowed callers s event)
  | .create c _ _ _ => inferInstanceAs (Decidable (c < callers))
  | .caller c => inferInstanceAs (Decidable (c < callers))
  | .thread _ | .device _ _ _ | .elapse _ => inferInstanceAs (Decidable True)

instance (s : State) : (phase : Phase) -> Decidable (GoesOn s phase)
  | .created _ _ readAhead cached =>
    inferInstanceAs (Decidable ((readAhead = true -> cached = true) ∧ s.firstFree ≠ none))
  | .awake _ _ start => inferInstanceAs (Decidable (s.jiffies - start ≤ waitLimit))
  | .away | .fetching _ _ | .waiting _ _ _ | .returned _ | .cleared _ => inferInstanceAs (Decidable True)

instance (s : State) : (event : Event) -> Decidable (Served s event)
  | .caller c => inferInstanceAs (Decidable (GoesOn s (s.callers c)))
  | .device _ _ code => inferInstanceAs (Decidable (code = 0))
  | .create _ _ _ _ | .thread _ | .elapse _ => inferInstanceAs (Decidable True)

instance (callers : Nat) (s : State) (event : Event) : Decidable (Careful callers s event) :=
  decidable_of_iff (Allowed callers s event ∧ Served s event ∧
    ∀ c < callers, (s.callers c).ending ≠ none -> event = .caller c)
    ⟨fun all => ⟨all.1, all.2.1, all.2.2⟩, fun careful => ⟨careful.allowed, careful.served, careful.undisturbed⟩⟩

instance (callers : Nat) (s : State) : Decidable (Quiet callers s) :=
  decidable_of_iff ((∀ c < callers, s.callers c = .away) ∧ ∀ i < maxDiskReqs, (s.slots i).buf ≠ none ->
    (s.slots i).state = .completed ∧ (s.slots i).readAhead = false)
    ⟨fun both => ⟨both.1, both.2⟩, fun quiet => ⟨quiet.returned, quiet.processed⟩⟩

end JinyKernel.Blk
