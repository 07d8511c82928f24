import JinyKernel.Blk.Model
import JinyKernel.Shared.Filing

namespace JinyKernel.Blk

open Filing Function Updates

inductive Box where
  | marked
  | queue (dev : Nat)
  | used (dev : Nat)
  deriving DecidableEq

inductive Place where
  | fresh
  | held (c : Nat)
  | ready (i : Nat)
  | boxed (box : Box) (i : Nat)
  | completed (i : Nat)
  | gone

namespace Place

@[simp] def slot : Place -> Option Nat
  | ready i => some i
  | boxed _ i => some i
  | completed i => some i
  | _ => none

@[simp] def box : Place -> Option Box
  | boxed box _ => some box
  | _ => none

@[simp] def state : Place -> ReqState
  | boxed _ _ => .queued
  | completed _ => .completed
  | _ => .idle

@[simp] def posted : Place -> Nat
  | boxed (.queue _) _ => 1
  | boxed (.used _) _ => 1
  | completed _ => 1
  | gone => 1
  | _ => 0

@[simp] def freed : Place -> Nat
  | gone => 1
  | _ => 0

end Place

@[simp] def Pc.mbufs : Pc -> List Nat
  | .mark _ _ _ mbufs => mbufs
  | .send _ mbufs => mbufs
  | .revert _ mbufs => mbufs
  | _ => []

def boxes (s : State) : Box -> List Nat
  | .marked => s.pc.mbufs
  | .queue dev => s.queue dev
  | .used dev => (s.used dev).map Prod.fst

namespace Phase

@[simp] def holds : Phase -> Option Nat
  | created buf _ _ _ => some buf
  | _ => none

@[simp] def waitsFor : Phase -> Option (Nat × Nat)
  | fetching i reqNo => some (i, reqNo)
  | waiting i reqNo _ => some (i, reqNo)
  | awake i reqNo _ => some (i, reqNo)
  | _ => none

@[simp] def ending : Phase -> Option Nat
  | returned i => some i
  | cleared i => some i
  | _ => none

end Phase

def Slot.request (slot : Slot) : Option Nat := if slot.buf = none ∨ slot.readAhead = true then none else some slot.reqNo

-- Who waits at each slot.
structure Awaited (waiter : Nat -> Option (Nat × Nat)) (phases : Nat -> Phase) (slots : Nat -> Slot) : Prop where
  waits : ∀ c i reqNo, (phases c).waitsFor = some (i, reqNo) ↔ waiter i = some (c, reqNo)
  each : ∀ i, (waiter i).map Prod.snd = (slots i).request

structure Placed (s : State) (b : Nat) (p : Place) : Prop where
  known : p = .fresh ↔ s.buffers ≤ b
  sits : ∀ i, p.slot = some i -> i < maxDiskReqs ∧ (s.slots i).state = p.state
  posted : s.posted b = p.posted
  freed : s.freed b = p.freed

structure Tracks (s : State) (place : Nat -> Place) : Prop where
  placed : ∀ b, Placed s b (place b)
  slots : ∀ i b, (s.slots i).buf = some b ↔ (place b).slot = some i
  filed : Filed (boxes s) fun b => (place b).box
  holders : ∀ c b, (s.callers c).holds = some b ↔ place b = .held c
  awaited : ∃ waiter, Awaited waiter s.callers s.slots
  calm : ∀ c, (s.callers c).ending = none
  balance : ∀ i, s.taken i = s.released i + if (s.slots i).buf = none then 0 else 1

theorem slot_freed {place : Place} {i : Nat} (here : place.slot = some i) : place.freed = 0 := by
  cases place <;> simp_all

variable {s next : State} {place : Nat -> Place} {b i c : Nat} {slot : Slot} {q : Place}

section

variable {waiter : Nat -> Option (Nat × Nat)} {phases later : Nat -> Phase} {slots after : Nat -> Slot}
  (awaited : Awaited waiter phases slots)

include awaited

theorem Awaited.congr (waits : ∀ c, (later c).waitsFor = (phases c).waitsFor)
    (same : ∀ j, (after j).request = (slots j).request) : Awaited waiter later after := by
  refine ⟨fun c => ?_, fun j => ?_⟩
  · rw [waits]
    exact awaited.waits c
  · rw [same]
    exact awaited.each j

theorem Awaited.update {phase : Phase} {now : Option (Nat × Nat)}
    (here : ∀ reqNo, phase.waitsFor = some (i, reqNo) ↔ now = some (c, reqNo))
    (row : ∀ j reqNo, j ≠ i -> (phase.waitsFor = some (j, reqNo) ↔ (phases c).waitsFor = some (j, reqNo)))
    (column : ∀ c' reqNo, c' ≠ c -> (now = some (c', reqNo) ↔ waiter i = some (c', reqNo)))
    (each : now.map Prod.snd = slot.request) :
    Awaited (update waiter i now) (update phases c phase) (update slots i slot) where
  waits c' j reqNo := linked (fun p j => Phase.waitsFor p = some (j, reqNo)) (fun w c => w = some (c, reqNo))
    (fun c j => awaited.waits c j reqNo) (here reqNo) (row · reqNo) (column · reqNo) c' j
  each := both (fun _ now slot => Option.map Prod.snd now = Slot.request slot) each fun j _ => awaited.each j

end

section

variable (tracks : Tracks s place)

include tracks

theorem Tracks.waited {reqNo : Nat} (waits : (s.callers c).waitsFor = some (i, reqNo)) :
    (s.slots i).buf ≠ none ∧ (s.slots i).readAhead = false ∧ (s.slots i).reqNo = reqNo := by
  obtain ⟨waiter, awaited⟩ := tracks.awaited
  have each := awaited.each i
  rw [(awaited.waits c i reqNo).1 waits, Slot.request] at each
  split at each
  next => cases each
  next own =>
    rw [not_or, Bool.not_eq_true] at own
    exact ⟨own.1, own.2, (Option.some.inj each).symm⟩

-- A buffer goes to a place at slot `i`, or leaves the last one it has.
structure Moved (s : State) (b i : Nat) (slot : Slot) (q : Place) (next : State) : Prop where
  slots : next.slots = update s.slots i slot
  target : q.slot = some i ∨ q = .gone
  buf : slot.buf = q.slot.map fun _ => b
  state : slot.state = q.state
  posted : next.posted = update s.posted b q.posted
  freed : next.freed = update s.freed b q.freed
  buffers : next.buffers = s.buffers

theorem Tracks.move (moved : Moved s b i slot q next) (low : i < maxDiskReqs) (old : place b ≠ .fresh)
    (was : ∀ j ≠ i, (place b).slot ≠ some j) (alone : ∀ b' ≠ b, (place b').slot ≠ some i)
    (filed : Filed (boxes next) (update (fun b => (place b).box) b q.box))
    (holders : ∀ c b', (next.callers c).holds = some b' ↔ update place b q b' = .held c)
    (awaited : ∃ waiter, Awaited waiter next.callers next.slots) (calm : ∀ c, (next.callers c).ending = none)
    (balance : ∀ i, next.taken i = next.released i + if (next.slots i).buf = none then 0 else 1) :
    Tracks next (update place b q) := by
  obtain ⟨slots, target, buf, state, posted, freed, buffers⟩ := moved
  have only (j : Nat) (sits : q.slot = some j) : j = i := by
    rcases target with there | rfl
    · exact Option.some.inj (sits.symm.trans there)
    · cases sits
  refine { filed := ?_, holders, awaited, calm, balance, placed := ?_, slots := ?_ }
  · refine (forall_update_iff _ fun b' p => Placed next b' p).2 ⟨⟨?_, fun j sits => ?_, ?_, ?_⟩, fun b' other => ?_⟩
    · rw [buffers, ← (tracks.placed b).known]
      refine iff_of_false ?_ old
      rintro rfl
      simp at target
    · obtain rfl := only j sits
      rw [slots, update_self]
      exact ⟨low, state⟩
    · rw [posted, update_self]
    · rw [freed, update_self]
    · obtain ⟨known, sits, counted, released⟩ := tracks.placed b'
      refine ⟨buffers ▸ known, fun j there => ?_, by rwa [posted, update_of_ne other], by rwa [freed, update_of_ne other]⟩
      have elsewhere : j ≠ i := fun same => alone b' other (same ▸ there)
      rw [slots, update_of_ne elsewhere]
      exact sits j there
  · rw [slots]
    refine linked (Slot.buf · = some ·) (Place.slot · = some ·) tracks.slots ?_ (fun b' other => ?_) fun j other =>
      iff_of_false (fun sits => other (only j sits)) (was j other)
    · rcases target with there | rfl
      · rw [buf, there]
        exact iff_of_true rfl rfl
      · simp [buf]
    · refine iff_of_false (fun held => ?_) fun held => alone b' other ((tracks.slots i b').1 held)
      rw [buf, Option.map_eq_some_iff] at held
      obtain ⟨_, -, same⟩ := held
      exact other same.symm
  · simpa only [apply_update fun _ => Place.box] using filed

variable (here : (place b).slot = some i)

include here

theorem Tracks.occupied : (s.slots i).buf = some b := (tracks.slots i b).2 here

theorem Tracks.leave (moved : Moved s b i slot q next)
    (filed : Filed (boxes next) (update (fun b => (place b).box) b q.box))
    (holds : ∀ c, (next.callers c).holds = (s.callers c).holds)
    (awaited : ∃ waiter, Awaited waiter next.callers next.slots) (calm : ∀ c, (next.callers c).ending = none)
    (balance : ∀ i, next.taken i = next.released i + if (next.slots i).buf = none then 0 else 1) :
    Tracks next (update place b q) := by
  refine tracks.move moved ((tracks.placed b).sits i here).1 ?_ (fun j other sits => ?_) (fun b' other sits => ?_) filed
    (fun c => ?_) awaited calm balance
  · intro fresh
    rw [fresh] at here
    cases here
  · exact other (Option.some.inj (sits.symm.trans here))
  · exact other (Option.some.inj ((tracks.occupied sits).symm.trans (tracks.occupied here)))
  · rw [holds]
    refine (forall_update_iff _ fun b' p => (s.callers c).holds = some b' ↔ p = Place.held c).2
      ⟨(tracks.holders c b).trans (iff_of_false ?_ ?_), fun b' _ => tracks.holders c b'⟩
    · intro held
      rw [held] at here
      cases here
    · rintro rfl
      simpa using moved.target

theorem Tracks.shift (there : q.slot = some i) (slots : next.slots = update s.slots i { s.slots i with state := q.state })
    (filed : Filed (boxes next) (update (fun b => (place b).box) b q.box))
    (posted : next.posted = update s.posted b q.posted) (freed : next.freed = s.freed)
    (phases : next.callers = s.callers) (buffers : next.buffers = s.buffers) (taken : next.taken = s.taken)
    (released : next.released = s.released) : Tracks next (update place b q) := by
  obtain ⟨waiter, awaited⟩ := tracks.awaited
  have unfreed : q.freed = s.freed b := by
    rw [(tracks.placed b).freed, slot_freed there, slot_freed here]
  refine tracks.leave here ⟨slots, .inl there, ?_, rfl, posted, ?_, buffers⟩ filed (fun c => by rw [phases])
    ⟨waiter, ?_⟩ (phases ▸ tracks.calm) fun j => ?_
  · rw [there]
    exact tracks.occupied here
  · rw [freed, unfreed, update_eq_self]
  · rw [phases, slots]
    exact awaited.congr (fun _ => rfl) (same Slot.request (by rfl))
  · rw [taken, released, slots, same Slot.buf (by rfl)]
    exact tracks.balance j

end

end JinyKernel.Blk
