import JinyKernel.Pipe.Run

namespace JinyKernel.Pipe

open List Option Run

def eagain : Int := 11

def recvReturn (p : Entry) (call : Recv) : Event -> Option Int
  | .recvSection =>
    if (p.bufs call.index).data ≠ none then some (recvSection p call).2.1.length
    else if call.nonblock then some (-eagain) else none
  | .recvBlocked => if p.count > 1 then none else some 0
  | _ => none

def sendReturn (p : Entry) (call : Send) : Event -> Option Int
  | .sendSection _ =>
    let maxSize := if call.leftLen < call.maxSize then call.leftLen else call.maxSize
    if (p.bufs p.outIndex).data = none ∧ call.leftLen - maxSize = 0 then some (call.consumedLen + maxSize) else none
  | .sendBlocked => if p.count > 1 then none else some 0
  | _ => none

-- How much had been put into the channel when the call of the writer began.
def watch (w : Channel × Nat) (event : Event) : Option (Channel × Nat) :=
  (step w.1 event).map fun c => (c, if w.1.writer.isNone then w.1.put.length else w.2)

abbrev Watched (w : Channel × Nat) : Prop := Reachable (fun w => Start w.1) watch (fun w => Allowed w.1) w

variable {w next : Channel × Nat} {event : Event}

theorem sendSection_consumed (p : Entry) {call : Send} (total : call.consumedLen + call.leftLen = call.buf.length)
    (page : List UInt8) :
    (∀ later, (sendSection p call page).2.2 = some later ->
      later.consumedLen = call.consumedLen + (sendSection p call page).2.1.length) ∧
    ∀ ret, sendReturn p call (.sendSection page) = some ret ->
      ret = call.consumedLen + (sendSection p call page).2.1.length := by
  rw [sendSection, sendReturn]
  generalize chosen : (if call.leftLen < call.maxSize then call.leftLen else call.maxSize) = maxSize
  have size : ((call.buf.drop call.consumedLen).take maxSize).length = maxSize := by
    rw [length_take_of_le]
    rw [length_drop, ← chosen]
    split_ifs <;> omega
  by_cases free : (p.bufs p.outIndex).data = none
  · simp only [free, if_true, true_and, size]
    refine ⟨fun later still => ?_, fun ret returned => ?_⟩
    · split_ifs at still
      cases still
      rfl
    · split_ifs at returned
      cases returned
      rfl
  · simp only [free, false_and, if_false]
    exact ⟨fun later still => by cases still; rfl, fun ret returned => by cases returned⟩

structure Level (w : Channel × Nat) : Prop where
  carries : ∃ chunks, Carries w.1 chunks
  writer : ∀ call, w.1.writer = some call -> w.1.put.length = w.2 + call.consumedLen

theorem Level.step (level : Level w) (may : Allowed w.1 event) (moved : watch w event = some next) : Level next := by
  obtain ⟨c, ran, rfl⟩ := map_eq_some_iff.1 moved
  refine ⟨step_carries _ event _ level.carries may ran, ?_⟩
  have began : ∀ call, w.1.writer = some call -> (if w.1.writer.isNone then w.1.put.length else w.2) = w.2 :=
    fun call calling => by rw [calling]; rfl
  have stays : c.writer = w.1.writer -> c.put = w.1.put -> ∀ call, c.writer = some call ->
      c.put.length = (if w.1.writer.isNone then w.1.put.length else w.2) + call.consumedLen := by
    intro writer put call calling
    rw [writer] at calling
    rw [put, began call calling]
    exact level.writer call calling
  cases event with
  | send buf =>
    cases ran
    intro call started
    cases started
    simp [may.1, fsSendToPipe]
  | sendSection page =>
    obtain ⟨call, calling, done⟩ := bind_iff.1 ran
    obtain ⟨chunks, carries⟩ := level.carries
    have consumed := (sendSection_consumed w.1.pipe (carries.writer call calling).2.2 page).1
    generalize sendSection w.1.pipe call page = out at done consumed
    cases done
    intro later still
    rw [length_append, began call calling, level.writer call calling, consumed later still, Nat.add_assoc]
  | sendBlocked =>
    obtain ⟨call, calling, done⟩ := bind_iff.1 ran
    cases done
    intro later still
    rw [began call calling]
    simp only [sendBlocked] at still
    split_ifs at still
    cases still
    exact level.writer call calling
  | recvSection =>
    obtain ⟨call, calling, done⟩ := bind_iff.1 ran
    generalize recvSection w.1.pipe call = out at done
    cases done
    exact stays rfl rfl
  | recvBlocked =>
    obtain ⟨call, calling, done⟩ := bind_iff.1 ran
    cases done
    exact stays rfl rfl
  | recv | close =>
    cases ran
    exact stays rfl rfl

theorem Carries.left_iff {c : Channel} {chunks : List (List UInt8)} (carries : Carries c chunks) :
    c.delivered = c.put ↔ (c.pipe.bufs c.pipe.inIndex).data = none := by
  have front := carries.ring.start_slot
  have filled := carries.filled c.pipe.inIndex
  rw [carries.stream, self_eq_append_right, ← rest_eq_none, front, head?_eq_none_iff]
  cases chunks with
  | nil => simp
  | cons chunk rest =>
    refine iff_of_false (fun empty => ?_) (by simp)
    obtain ⟨data, there, isChunk⟩ := map_eq_some_iff.1 front
    have within := filled data there
    have zero : chunk = [] := (append_eq_nil_iff.1 empty).1
    rw [← isChunk, ← length_eq_zero_iff, length_take, length_drop] at zero
    omega

theorem recvReturn_zero {p : Entry} {call : Recv} (filled : ∀ j, (p.bufs j).Filled) (asked : 0 < call.len)
    (zero : recvReturn p call event = some 0) : event = .recvBlocked ∧ ¬ 1 < p.count := by
  cases event with
  | recvBlocked =>
    simp only [recvReturn] at zero
    split_ifs at zero with more
    exact ⟨rfl, more⟩
  | recvSection =>
    rw [recvReturn, recvSection] at zero
    cases there : (p.bufs call.index).data with
    | none =>
      simp only [there] at zero
      split_ifs at zero <;> simp_all [eagain]
    | some data =>
      have within := filled call.index data there
      simp only [there, ne_eq, reduceCtorEq, not_false_eq_true, if_true] at zero
      split_ifs at zero <;> simp at zero <;> omega
  | _ => cases zero

-- A reader holds its own end open.
theorem pipe_returns_iff (reached : Watched w) (moved : watch w event = some next) :
    ((∀ call, w.1.reader = some call -> 0 < call.len -> recvReturn w.1.pipe call event = some 0 ->
        w.1.pipe.count ≤ 1 ∧ w.1.delivered = w.1.put) ↔
      (event = .recvBlocked -> ∀ call, w.1.reader = some call -> 0 < call.len ->
        1 < w.1.pipe.count ∨ (w.1.pipe.bufs w.1.pipe.inIndex).data = none)) ∧
    ((∀ call ret, w.1.writer = some call -> sendReturn w.1.pipe call event = some ret ->
        w.2 + ret = next.1.put.length) ↔
      (event = .sendBlocked -> ∀ call, w.1.writer = some call -> 1 < w.1.pipe.count ∨ call.consumedLen = 0)) := by
  have level : Level w := reached.invariant (fun w start => ⟨⟨_, start_carries start⟩, fun call calling => by
    rw [show w.1 = _ from start] at calling; cases calling⟩) fun _ _ _ level => level.step
  obtain ⟨chunks, carries⟩ := level.carries
  refine ⟨⟨fun right is call calling asks => ?_, fun sound call calling asks zero => ?_⟩,
    ⟨fun right is call calling => ?_, fun sound call ret calling returned => ?_⟩⟩
  · by_cases more : 1 < w.1.pipe.count
    · exact .inl more
    · exact .inr (carries.left_iff.1 (right call calling asks (by simp [is, recvReturn, more])).2)
  · obtain ⟨is, one⟩ := recvReturn_zero carries.filled asks zero
    exact ⟨by omega, carries.left_iff.2 ((sound is call calling asks).resolve_left one)⟩
  · subst is
    obtain ⟨c, ran, rfl⟩ := map_eq_some_iff.1 moved
    obtain ⟨_, _, done⟩ := bind_iff.1 ran
    cases done
    by_cases more : 1 < w.1.pipe.count
    · exact .inl more
    have sent := right call 0 calling (by simp [sendReturn, more])
    have put := level.writer call calling
    dsimp only at sent
    omega
  obtain ⟨c, ran, rfl⟩ := map_eq_some_iff.1 moved
  have put := level.writer call calling
  cases event with
  | sendSection page =>
    obtain ⟨same, again, done⟩ := bind_iff.1 ran
    cases calling.symm.trans again
    have consumed := (sendSection_consumed w.1.pipe (carries.writer call calling).2.2 page).2 ret returned
    generalize sendSection w.1.pipe call page = out at done consumed
    obtain ⟨after, bytes, later⟩ := out
    cases done
    dsimp only at consumed ⊢
    rw [length_append]
    omega
  | sendBlocked =>
    obtain ⟨_, _, done⟩ := bind_iff.1 ran
    cases done
    simp only [sendReturn] at returned
    split_ifs at returned with one
    cases returned
    have left := (sound rfl call calling).resolve_left one
    dsimp only
    omega
  | _ => cases returned

theorem Watched.and (reached : Watched w) (event : Event) (may : Allowed w.1 event)
    (moved : watch w event = some next) : Watched next := .next reached may moved

theorem start_watched : Watched (created, 0) := .start rfl

theorem refilled_read_zero : ∃ w, Watched w ∧ Allowed w.1 .recvBlocked ∧
    w.1.reader.map (fun call => (call.len, recvReturn w.1.pipe call .recvBlocked)) = some (1, some 0) ∧
    w.1.put = [5] ∧ w.1.delivered = [] :=
  ⟨_, ((((start_watched.and (.recv 1 false) rfl rfl).and .recvSection rfl rfl).and (.send [5]) ⟨rfl, by decide⟩
    rfl).and (.sendSection []) rfl rfl).and .close (by unfold Allowed; decide) rfl, rfl, by decide, by decide, by decide⟩

theorem pipe_returns_received : ∃ w next, watch w .recvSection = some next ∧
    w.1.reader.map (fun call => recvReturn w.1.pipe call .recvSection) = some (some 2) ∧
    ∀ call, w.1.reader = some call -> 0 < call.len -> recvReturn w.1.pipe call .recvSection = some 0 ->
      w.1.pipe.count ≤ 1 ∧ w.1.delivered = w.1.put :=
  have reached : Watched (receiving, 3) := ((start_watched.and (.send [1, 2, 3]) ⟨rfl, by decide⟩ rfl).and
    (.sendSection []) rfl rfl).and (.recv 2 false) rfl rfl
  ⟨_, _, rfl, by decide, (pipe_returns_iff reached rfl).1.2 nofun⟩

end JinyKernel.Pipe
