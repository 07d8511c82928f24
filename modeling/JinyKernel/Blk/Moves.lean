import JinyKernel.Blk.Tracks

namespace JinyKernel.Blk

open Filing Function List Option Updates

variable {b i c : Nat} {s next : State} {place : Nat -> Place} {pc : Pc}

theorem Tracks.goto (tracks : Tracks s place) (same : pc.mbufs = s.pc.mbufs) :
    Tracks (s.goto pc) place := by
  have boxesSame : boxes (s.goto pc) = boxes s := by
    funext box
    cases box
    · exact same
    · rfl
    · rfl
  exact { tracks with placed := fun b => { tracks.placed b with }, filed := boxesSame ▸ tracks.filed }

theorem boxes_unmarked (s : State) (mbufs : List Nat) (isNext : pc.mbufs = mbufs) :
    boxes (s.goto pc) = update (boxes s) .marked mbufs := by
  funext box
  cases box with
  | marked => rw [update_self, ← isNext]; rfl
  | queue dev | used dev => rfl

theorem boxes_queue (s : State) (dev : Nat) (queue : List Nat) :
    boxes { s with queue := update s.queue dev queue } = update (boxes s) (.queue dev) queue := by
  funext box
  cases box with
  | queue other => by_cases same : other = dev <;> simp [boxes, same]
  | _ => rfl

theorem boxes_used (s : State) (dev : Nat) (used : List (Nat × Nat)) :
    boxes { s with used := update s.used dev used } = update (boxes s) (.used dev) (used.map Prod.fst) := by
  funext box
  cases box with
  | used other => by_cases same : other = dev <;> simp [boxes, same]
  | _ => rfl

section

variable (tracks : Tracks s place)

include tracks

theorem Tracks.recall {phase : Phase} (holds : phase.holds = (s.callers c).holds)
    (waitsFor : phase.waitsFor = (s.callers c).waitsFor) (calm : phase.ending = none) :
    Tracks (s.setCaller c phase) place := by
  refine { tracks with
    placed := fun b => { tracks.placed b with }
    holders := fun c' b => ?_
    awaited := tracks.awaited.imp fun _ awaited => awaited.congr (same Phase.waitsFor waitsFor) fun _ => rfl
    calm := ?_ }
  · change (update s.callers c phase c').holds = some b ↔ _
    rw [same Phase.holds holds]
    exact tracks.holders c' b
  · exact (forall_update_iff _ fun _ => (Phase.ending · = none)).2 ⟨calm, fun c' _ => tracks.calm c'⟩

theorem Tracks.elapse (jiffies : Nat) :
    Tracks { s with jiffies := jiffies } place :=
  { tracks with placed := fun b => { tracks.placed b with } }

theorem Tracks.restated {state : ReqState} (here : (place b).slot = some i)
    (same : (place b).state = state) : s.slots = update s.slots i { s.slots i with state := state } := by
  have is := ((tracks.placed b).sits i here).2
  rw [same] at is
  rw [← is, update_eq_self]

theorem Tracks.recounted {count : Nat} (same : (place b).posted = count) :
    s.posted = update s.posted b count := by
  rw [← same, ← (tracks.placed b).posted, update_eq_self]

theorem Tracks.mark (here : place b = .ready i) (isNext : pc.mbufs = s.pc.mbufs ++ [b]) :
    Tracks ((s.setState i .queued).goto pc) (update place b (.boxed .marked i)) := by
  have filed := tracks.filed.put .marked b (by rw [here]; rfl) (perm_append_singleton b s.pc.mbufs)
  refine tracks.shift (by rw [here]; rfl) rfl rfl ?_ (tracks.recounted (by rw [here]; rfl)) rfl rfl rfl rfl rfl
  rw [boxes_unmarked (s.setState i .queued) _ isNext]
  exact filed

theorem Tracks.boxed {box : Box} (listed : b ∈ boxes s box) : ∃ i, place b = .boxed box i := by
  rw [tracks.filed.agrees] at listed
  cases here : place b <;> rw [here] at listed <;> cases listed
  exact ⟨_, rfl⟩

theorem Tracks.first_marked {rest : List Nat} (mbufs : s.pc.mbufs = b :: rest) : ∃ i, place b = .boxed .marked i :=
  tracks.boxed (by rw [boxes, mbufs]; exact mem_cons_self)

theorem Tracks.post {rest : List Nat} (mbufs : s.pc.mbufs = b :: rest) (dev : Nat) (isNext : pc.mbufs = rest) :
    ∃ after, Tracks ((Blk.post s dev b).goto pc) after := by
  obtain ⟨i, here⟩ := tracks.first_marked mbufs
  have removed : (boxes s .marked).Perm (b :: rest) := by
    change s.pc.mbufs.Perm _
    rw [mbufs]
  have filed := tracks.filed.move b (by simp : Box.queue dev ≠ .marked) removed
    (perm_append_singleton b (s.queue dev))
  refine ⟨update place b (.boxed (.queue dev) i), tracks.shift (i := i) (by rw [here]; rfl) rfl
    (tracks.restated (by rw [here]; rfl) (by rw [here]; rfl)) ?_ ?_ rfl rfl rfl rfl rfl⟩
  · rw [boxes_unmarked _ _ isNext]
    change Filed (update (boxes { s with queue := update s.queue dev (s.queue dev ++ [b]) }) .marked rest) _
    rw [boxes_queue, update_comm (by simp)]
    exact filed
  · change update s.posted b (s.posted b + 1) = _
    rw [(tracks.placed b).posted, here]
    rfl

theorem Tracks.revert {rest : List Nat} (mbufs : s.pc.mbufs = b :: rest) (here : place b = .boxed .marked i)
    (isNext : pc.mbufs = rest) : Tracks ((s.setState i .idle).goto pc) (update place b (.ready i)) := by
  have removed : (boxes s .marked).Perm (b :: rest) := by
    change s.pc.mbufs.Perm _
    rw [mbufs]
  refine tracks.shift (by rw [here]; rfl) rfl rfl ?_ (tracks.recounted (by rw [here]; rfl)) rfl rfl rfl rfl rfl
  rw [boxes_unmarked (s.setState i .idle) _ isNext]
  exact tracks.filed.drop .marked b removed

theorem Tracks.device {dev : Nat} (listed : b ∈ s.queue dev) (code : Nat) :
    ∃ after, Tracks { s with
      queue := update s.queue dev ((s.queue dev).erase b)
      used := update s.used dev (s.used dev ++ [(b, code)]) } after := by
  obtain ⟨i, here⟩ : ∃ i, place b = .boxed (.queue dev) i := tracks.boxed listed
  have filed := tracks.filed.move b (by simp : Box.used dev ≠ .queue dev) (perm_cons_erase listed)
    (perm_append_singleton b ((s.used dev).map Prod.fst))
  refine ⟨update place b (.boxed (.used dev) i), tracks.shift (i := i) (by rw [here]; rfl) rfl
    (tracks.restated (by rw [here]; rfl) (by rw [here]; rfl)) ?_ (tracks.recounted (by rw [here]; rfl)) rfl
    rfl rfl rfl rfl⟩
  rw [boxes_used { s with queue := update s.queue dev ((s.queue dev).erase b) }, boxes_queue, map_append]
  exact filed

theorem Tracks.slotOf (here : (place b).slot = some i) : s.slotOf b = some i := by
  have occupied := tracks.occupied here
  cases found : s.slotOf b with
  | none =>
    have missing := find?_eq_none.1 found i (mem_range.2 ((tracks.placed b).sits i here).1)
    simp [occupied] at missing
  | some j =>
    have holds := find?_some found
    have there : (place b).slot = some j := (tracks.slots j b).1 (of_decide_eq_true holds)
    rw [← there, here]

end

theorem firstFree_some (found : s.firstFree = some i) : i < maxDiskReqs ∧ (s.slots i).buf = none := by
  have free := find?_some found
  exact ⟨mem_range.1 (mem_of_find?_eq_some found), of_decide_eq_true free⟩

variable (tracks : Tracks s place)

include tracks

theorem Tracks.complete {dev : Nat} {rest : List (Nat × Nat)} (used : s.used dev = (b, 0) :: rest)
    (isNext : pc.mbufs = s.pc.mbufs) :
    ∃ done after, Blk.complete s dev b 0 rest = some done ∧ Tracks (done.goto pc) after := by
  obtain ⟨i, here⟩ : ∃ i, place b = .boxed (.used dev) i := tracks.boxed (by simp [boxes, used])
  have removed : (boxes s (.used dev)).Perm (b :: rest.map Prod.fst) := by simp [boxes, used]
  have found : s.slotOf b = some i := tracks.slotOf (by rw [here]; rfl)
  refine ⟨_, update place b (.completed i), by rw [Blk.complete, found]; rfl, ?_⟩
  refine tracks.shift (by rw [here]; rfl) rfl rfl ?_ (tracks.recounted (by rw [here]; rfl)) rfl rfl rfl rfl rfl
  rw [boxes_unmarked _ _ isNext]
  change Filed (update (boxes { s with used := update s.used dev rest }) .marked (boxes s .marked)) _
  rw [boxes_used, update_comm (by simp), update_eq_self]
  exact tracks.filed.drop (.used dev) b removed

theorem Tracks.collect (here : place b = .completed i)
    (slots : next.slots = update s.slots i { s.slots i with buf := none, state := .idle }) (boxed : boxes next = boxes s)
    (buffers : next.buffers = s.buffers) (posted : next.posted = s.posted)
    (freed : next.freed = update s.freed b (s.freed b + 1)) (taken : next.taken = s.taken)
    (released : next.released = update s.released i (s.released i + 1))
    (holds : ∀ c, (next.callers c).holds = (s.callers c).holds)
    (awaited : ∃ waiter, Awaited waiter next.callers next.slots) (calm : ∀ c, (next.callers c).ending = none) :
    Tracks next (update place b .gone) := by
  have sits : (place b).slot = some i := by
    rw [here]
    rfl
  refine tracks.leave sits ⟨slots, .inr rfl, rfl, rfl, ?_, ?_, buffers⟩ ?_ holds awaited calm fun j => ?_
  · rw [posted]
    exact tracks.recounted (by rw [here]; rfl)
  · rw [freed, (tracks.placed b).freed, here]
    rfl
  · have unboxed : Place.gone.box = (place b).box := by rw [here]; rfl
    rw [boxed, unboxed, update_eq_self b fun b => (place b).box]
    exact tracks.filed
  · rw [taken, released, tracks.balance, slots]
    by_cases same : j = i
    · subst same
      simp [tracks.occupied sits]
    · simp [same]

theorem Tracks.create (away : s.callers c = .away) (dev : Nat) (readAhead cached : Bool) :
    Tracks ({ s with buffers := s.buffers + 1 }.setCaller c (.created s.buffers dev readAhead cached))
      (update place s.buffers (.held c)) := by
  have fresh : place s.buffers = .fresh := (tracks.placed _).known.2 (Nat.le_refl _)
  obtain ⟨-, -, posted, freed⟩ := tracks.placed s.buffers
  rw [fresh] at posted freed
  constructor
  case placed =>
    refine (forall_update_iff _ fun b p => Placed _ b p).2 ⟨⟨by simp [State.setCaller], by simp, posted, freed⟩,
      fun b other => { tracks.placed b with known := (tracks.placed b).known.trans ?_ }⟩
    change s.buffers ≤ b ↔ s.buffers + 1 ≤ b
    omega
  case slots =>
    intro i b
    rw [same Place.slot (by rw [fresh]; rfl)]
    exact tracks.slots i b
  case filed =>
    rw [funext (same Place.box (by rw [fresh]; rfl))]
    exact tracks.filed
  case holders =>
    exact linked (Phase.holds · = some ·) (fun p c => p = Place.held c) tracks.holders (by simp)
      (fun b other => by simp [away, Ne.symm other]) fun c' other => by simp [fresh, Ne.symm other]
  case awaited =>
    obtain ⟨waiter, awaited⟩ := tracks.awaited
    exact ⟨waiter, awaited.congr (same Phase.waitsFor (by rw [away]; rfl)) fun _ => rfl⟩
  case calm => exact (forall_update_iff _ fun _ => (Phase.ending · = none)).2 ⟨rfl, fun c' _ => tracks.calm c'⟩
  case balance => exact tracks.balance

theorem Tracks.submit {dev : Nat} {readAhead cached : Bool} (phase : s.callers c = .created b dev readAhead cached)
    (low : i < maxDiskReqs) (free : (s.slots i).buf = none) :
    Tracks ((takeSlot s i b dev readAhead).setCaller c
      (if readAhead then .away else .fetching i (takeSlot s i b dev readAhead).currentReqNo))
      (update place b (.ready i)) := by
  have here : place b = .held c := (tracks.holders c b).1 (by rw [phase]; rfl)
  obtain ⟨-, -, posted, freed⟩ := tracks.placed b
  obtain ⟨waiter, awaited⟩ := tracks.awaited
  have unwaited : waiter i = none := by simpa [Slot.request, free] using awaited.each i
  rw [here] at posted freed
  refine tracks.move ⟨rfl, .inl rfl, rfl, rfl, ?_, ?_, rfl⟩ low (by simp [here]) (by simp [here]) ?_ ?_ ?_
    ⟨update waiter i (if readAhead then none else some (c, nextReqNo s.currentReqNo)), awaited.update ?_ ?_ ?_ ?_⟩ ?_ ?_
  · exact (update_eq_self_iff.2 posted.symm).symm
  · exact (update_eq_self_iff.2 freed.symm).symm
  · intro b' _ sits
    rw [tracks.occupied sits] at free
    cases free
  · have unboxed : (Place.ready i).box = (place b).box := by rw [here]; rfl
    rw [unboxed, update_eq_self b fun b => (place b).box]
    exact tracks.filed
  · refine linked (Phase.holds · = some ·) (fun p c => p = Place.held c) tracks.holders ?_ (fun b' other => ?_)
      fun c' other => by simp [here, Ne.symm other]
    · cases readAhead <;> simp
    · cases readAhead <;> simp [takeSlot, State.setSlot, phase, Ne.symm other]
  · intro reqNo
    cases readAhead <;> simp [takeSlot]
  · intro j reqNo other
    rw [phase]
    cases readAhead <;> simp [Ne.symm other]
  · intro c' reqNo other
    rw [unwaited]
    cases readAhead <;> simp [Ne.symm other]
  · cases readAhead <;> simp [Slot.request]
  · refine (forall_update_iff _ fun _ => (Phase.ending · = none)).2 ⟨?_, fun c' _ => tracks.calm c'⟩
    cases readAhead <;> rfl
  · refine both (fun j (slot : Slot) taken => taken = s.released j + if slot.buf = none then 0 else 1) ?_
      fun j _ => tracks.balance j
    simp [tracks.balance i, free]

end JinyKernel.Blk
