import JinyKernel.Blk.Run
import JinyKernel.Disk.Transfer

-- The status byte of a request, from the device to the caller of `disk_io`.

namespace JinyKernel.Blk

open Function List Option Run

-- `BulkRemoveFromQueue` does not read the status.
def retCode (_status : Nat) : Nat := 0

-- `status` is what the device has written for a buffer.
structure Disk where
  requests : State
  status : Nat -> Option Nat

def answerStep (d : Disk) : Event -> Option Disk
  | .device dev b status =>
    if b ∈ d.requests.queue dev then
      (step d.requests (.device dev b (retCode status))).map (⟨·, update d.status b (some status)⟩)
    else some d
  | event => (step d.requests event).map (⟨·, d.status⟩)

def positiveReturn (s : State) (c : Nat) : Option Nat :=
  match s.callers c with
  | .created buf _ readAhead cached => if readAhead ∧ cached ∧ s.firstFree ≠ none then some buf else none
  | .waiting i _ _ => if (s.slots i).state = .completed then (s.slots i).buf else none
  | _ => none

-- What a call of `disk_io` finds around it, as the model of its transfer takes it.
def around (s : State) (c : Nat) (page : JinyKernel.Disk.Bytes) : JinyKernel.Disk.Surroundings :=
  match s.callers c with
  | .created _ _ _ _ => ⟨s.firstFree.isSome, false, page⟩
  | .waiting i _ _ => ⟨true, (s.slots i).state = .completed, page⟩
  | _ => ⟨true, false, page⟩

section

open JinyKernel.Disk (Direction Driver BlkReq Bytes split makeReq tlen serve_ret)

variable {driver : Driver} {sectorSize : Nat} {len offset : Int} {req : BlkReq} {readAhead cached : Bool} {s : State}
  {c b : Nat} (direction : Direction) (page buf disk : Bytes)

theorem transfer_created_iff {dev : Nat} (whole : driver.blkSize ≠ 0) (positive : 0 < len)
    (made : makeReq driver cached (split driver len offset) = some req)
    (created : s.callers c = .created b dev readAhead cached) :
    (∃ out, JinyKernel.Disk.diskIo direction driver sectorSize cached readAhead len offset (around s c page) buf disk =
      some out ∧ 0 < out.ret) ↔ positiveReturn s c = some b := by
  cases free : s.firstFree <;> cases readAhead <;> cases cached <;>
    simp [JinyKernel.Disk.diskIo, around, positiveReturn, whole, created, made, free, positive]

theorem transfer_waiting_iff {i reqNo start : Nat} (whole : driver.blkSize ≠ 0)
    (moves : 0 < tlen driver len (split driver len offset).initialSkip)
    (made : makeReq driver cached (split driver len offset) = some req) (waiting : s.callers c = .waiting i reqNo start)
    (holds : (s.slots i).buf = some b) :
    (∃ out, JinyKernel.Disk.diskIo direction driver sectorSize cached false len offset (around s c page) buf disk =
      some out ∧ 0 < out.ret) ↔ positiveReturn s c = some b := by
  by_cases done : (s.slots i).state = .completed <;>
    simp [JinyKernel.Disk.diskIo, around, positiveReturn, whole, waiting, made, holds, done, moves]

end

def Succeeds (_ : Disk) : Event -> Prop
  | .device _ _ status => status = 0
  | _ => True

structure Answers (status : Nat -> Option Nat) (used : Nat -> List (Nat × Nat)) (slots : Nat -> Slot) : Prop where
  used : ∀ dev, ∀ entry ∈ used dev, status entry.1 = some 0
  completed : ∀ i b, (slots i).buf = some b -> (slots i).state = .completed -> status b = some 0

variable {status : Nat -> Option Nat} {s next : State} {i n : Nat} {used : Nat -> List (Nat × Nat)} {slots : Nat -> Slot}

theorem Answers.slot (answers : Answers status used slots) {slot : Slot}
    (kept : ∀ b, slot.buf = some b -> slot.state = .completed -> status b = some 0) :
    Answers status used (update slots i slot) where
  used := answers.used
  completed := (forall_update_iff slots fun _ slot => ∀ b, slot.buf = some b -> slot.state = .completed ->
    status b = some 0).2 ⟨kept, fun j _ => answers.completed j⟩

theorem Answers.diskIo (answers : Answers status s.used s.slots) (c : Nat) :
    Answers status (diskIo s c).used (diskIo s c).slots := by
  rw [diskIo_frame.1, Blk.diskIo]
  split
  next => exact answers
  next =>
    rw [diskioSubmitRequests]
    split
    next => exact answers
    next => split <;> first | exact answers | exact answers.slot (by simp)
  next => split <;> exact answers
  next => split <;> first | exact answers | cases (s.slots _).buf <;> exact answers
  next => split <;> exact answers
  next => exact answers.slot (by simp)
  next => exact answers.slot (by simp)

theorem Answers.complete (answers : Answers status s.used s.slots) {dev b code : Nat} {rest : List (Nat × Nat)}
    (finished : s.used dev = (b, code) :: rest) (ran : complete s dev b code rest = some next) :
    Answers status next.used next.slots := by
  obtain ⟨m, found, rfl⟩ := map_eq_some_iff.1 ran
  obtain ⟨first, others⟩ := forall_mem_cons.1 (finished ▸ answers.used dev)
  have read : Answers status (update s.used dev rest) s.slots :=
    ⟨(forall_update_iff s.used fun _ entries => ∀ entry ∈ entries, status entry.1 = some 0).2
      ⟨others, fun dev _ => answers.used dev⟩, answers.completed⟩
  refine read.slot fun other here _ => ?_
  have holds : (s.slots m).buf = some b := by simpa using find?_some found
  cases holds.symm.trans here
  exact first

theorem Answers.thread (answers : Answers status s.used s.slots) (ran : diskioThread s n = some next) :
    Answers status next.used next.slots := by
  rw [diskioThread] at ran
  split at ran
  case h_2 =>
    split at ran <;> cases ran
    next =>
      rw [markSlot]
      split
      next => split <;> first | exact answers | exact answers.slot (by simp)
      next => exact answers
    next => exact answers
  case h_6 => split at ran <;> cases ran <;> first | exact answers | exact answers.slot (by simp)
  case h_9 =>
    split at ran
    next =>
      cases ran
      exact answers
    next finished =>
      obtain ⟨after, done, rfl⟩ := map_eq_some_iff.1 ran
      have kept := answers.complete finished done
      exact kept
  case h_10 i _ =>
    cases ran
    rw [collectReadAhead]
    split
    next => cases (s.slots i).buf <;> exact (answers.slot (by simp)).slot (by simp)
    next => exact answers
  -- the other steps only move the thread on
  all_goals first | cases ran; exact answers | split_ifs at ran <;> cases ran <;> exact answers

def Disk.Answered (d : Disk) : Prop := Answers d.status d.requests.used d.requests.slots

theorem Disk.Answered.step {d next : Disk} {event : Event} (answers : d.Answered) (succeeds : Succeeds d event)
    (moved : answerStep d event = some next) : next.Answered := by
  cases event with
  | create =>
    obtain ⟨after, ran, rfl⟩ := map_eq_some_iff.1 moved
    rw [Blk.step] at ran
    split at ran <;> cases ran <;> exact answers
  | caller c =>
    cases moved
    exact Answers.diskIo answers c
  | thread n =>
    obtain ⟨after, ran, rfl⟩ := map_eq_some_iff.1 moved
    exact Answers.thread answers ran
  | device dev b status =>
    obtain rfl : status = 0 := succeeds
    rw [answerStep] at moved
    split at moved
    next listed =>
      rw [Blk.step, if_pos listed] at moved
      cases moved
      have noted (b' : Nat) (zero : b' = b ∨ d.status b' = some 0) : update d.status b (some 0) b' = some 0 := by
        rcases zero with rfl | zero
        · exact update_self ..
        · exact (update_apply ..).trans (by split <;> simp [zero])
      refine ⟨(forall_update_iff d.requests.used fun _ entries => ∀ entry ∈ entries,
        update d.status b (some 0) entry.1 = some 0).2 ⟨fun entry among => noted _ ?_, ?_⟩, ?_⟩
      · rcases mem_append.1 among with old | new
        · exact .inr (answers.used dev entry old)
        · exact .inl (by rw [mem_singleton.1 new])
      · exact fun dev _ entry among => noted _ (.inr (answers.used dev entry among))
      · exact fun i b' here done => noted _ (.inr (answers.completed i b' here done))
    next =>
      cases moved
      exact answers
  | elapse =>
    cases moved
    exact answers

structure Disk.Start (d : Disk) : Prop where
  requests : Blk.Start d.requests
  status : ∀ b, d.status b = none

end JinyKernel.Blk
