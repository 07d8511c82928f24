import JinyKernel.NetSched.Order

-- Producers run `sendq_add` while one thread runs `net_bh_send`; an access to the flag or a queue is a step.

namespace JinyKernel.NetSched

open Function Option Run

open Fifo (FifoQueue Item Tracked)
open Virtio (VringQueue)

inductive Producer where
  | outside
  | added (cpu : Nat) (ret : Bool)
  | lowering
  deriving DecidableEq

-- `second` is the pass of `sendq_remove`.
inductive Consumer where
  | outside
  | enter
  | bulk (pktSend : Nat)
  | remove (pktSend : Nat)
  | scan (pktSend : Nat) (second : Bool) (left cpu pkts : Nat)
  | take (pktSend : Nat) (second : Bool) (left cpu pkts : Nat)
  | raise (pktSend : Nat)
  | found (pktSend cpu pkts : Nat)
  | lower (pktSend : Nat)
  | burst (pktSend : Nat)
  deriving DecidableEq

structure Threads where
  sched : Sched
  consumer : Consumer := .outside
  producers : Nat -> Producer := fun _ => .outside

namespace Threads

variable (threads : Threads)

def withFlag (empty : Bool) : Threads :=
  { threads with sched := { threads.sched with sendqsEmpty := empty } }

def goto (consumer : Consumer) : Threads := { threads with consumer := consumer }

def set (id : Nat) (producer : Producer) : Threads :=
  { threads with producers := update threads.producers id producer }

end Threads

def leave (sendBurst : Int) (pktSend pkts : Nat) : Consumer :=
  if pkts > 0 ∧ ((pktSend + pkts : Nat) : Int) < sendBurst then .bulk (pktSend + pkts) else .outside

def takeOne (sched : Sched) (cpu pkts : Nat) : Option (Option Sched) :=
  if pkts ≥ maxBufListSize then some none
  else do
    let queue := sched.sendQueues cpu
    let entry ← queue.entry queue.consumer.index
    if entry.buf = 0 then some none
    else
      some (some { sched with
        sendQueues := update sched.sendQueues cpu (queue.consume entry)
        driver := { sched.driver with
          sendMbufList := update sched.driver.sendMbufList pkts { buf := entry.buf, len := entry.len } } })

def consume (sendBurst : Int) (sends : List VringQueue) (threads : Threads) : Option Threads :=
  let sched := threads.sched
  match threads.consumer with
  | .outside => some (threads.goto .enter)
  | .enter => some (threads.goto (if sched.sendqsEmpty ∨ sendBurst = 0 then .outside else .bulk 0))
  | .bulk pktSend =>
    some (threads.goto (if sched.sendqsEmpty ∧ sched.driver.sendMbufLen = 0 then leave sendBurst pktSend 0
      else if sched.driver.sendMbufLen ≠ 0 then .burst pktSend else .remove pktSend))
  | .remove pktSend =>
    some (threads.goto (if sched.sendqsEmpty then leave sendBurst pktSend 0
      else .scan pktSend false sched.maxcpus sched.lastQ 0))
  | .scan pktSend second 0 cpu pkts =>
    some (threads.goto (if second then if pkts > 0 then .found pktSend cpu pkts else leave sendBurst pktSend 0
      else if pkts = 0 then .raise pktSend else .scan pktSend true sched.maxcpus sched.lastQ pkts))
  | .scan pktSend second (left + 1) cpu pkts => do
      let cpu := nextCpu sched.maxcpus cpu
      let empty ← isEmpty (sched.sendQueues cpu)
      some (threads.goto (if empty then .scan pktSend second left cpu pkts else .take pktSend second left cpu pkts))
  | .take pktSend second left cpu pkts => do
      match ← takeOne sched cpu pkts with
      | some sched => some { threads with sched := sched, consumer := .take pktSend second left cpu (pkts + 1) }
      | none =>
        some (threads.goto (if pkts ≥ maxBufListSize then .found pktSend cpu pkts
          else .scan pktSend second left cpu pkts))
  | .raise pktSend => some ((threads.withFlag true).goto (.scan pktSend true sched.maxcpus sched.lastQ 0))
  | .found pktSend cpu pkts =>
    some { threads with
      sched := { sched with driver := { sched.driver with sendMbufLen := pkts }, lastQ := cpu }
      consumer := if sched.sendqsEmpty then .lower pktSend else .burst pktSend }
  | .lower pktSend => some ((threads.withFlag false).goto (.burst pktSend))
  | .burst pktSend => do
      let (ret, driver) ← burstSend { sched.driver with sends := sends }
      some { threads with sched := { sched with driver := driver }, consumer := leave sendBurst pktSend ret }

inductive ThreadEvent where
  | insert (id cpu : Nat) (item : Item)
  | test (id : Nat)
  | lower (id : Nat)
  | consume (sends : List VringQueue)

def threadStep (sendBurst : Int) (threads : Threads) : ThreadEvent -> Option Threads
  | .insert id cpu item =>
    if threads.producers id = .outside then do
      let (ret, queue) ← Fifo.addToQueue (threads.sched.sendQueues cpu) item.buf item.len item.flags
      some { threads.set id (.added cpu ret) with
        sched := { threads.sched with sendQueues := update threads.sched.sendQueues cpu queue } }
    else none
  | .test id =>
    match threads.producers id with
    | .added _ ret => some (threads.set id (if threads.sched.sendqsEmpty ∧ ret then .lowering else .outside))
    | _ => none
  | .lower id => if threads.producers id = .lowering then some ((threads.withFlag false).set id .outside) else none
  | .consume sends => consume sendBurst sends threads

def Ahead (maxcpus left cpu other : Nat) : Prop := ∃ k, 1 ≤ k ∧ k ≤ left ∧ other = (cpu + k) % maxcpus

-- The consumer will find the frames of this queue or lower the flag.
def Consumer.Covers (maxcpus other : Nat) : Consumer -> Prop
  | .scan _ second left cpu pkts => second = true ∧ (pkts > 0 ∨ Ahead maxcpus left cpu other)
  | .take _ second left cpu pkts => second = true ∧ (pkts > 0 ∨ other = cpu ∨ Ahead maxcpus left cpu other)
  | .found _ _ _ | .lower _ => True
  | _ => False

-- A producer that has yet to look at the flag, or is about to lower it.
def Producer.Covers (other : Nat) : Producer -> Prop
  | .outside => False
  | .added cpu ret => cpu = other ∧ ret = true
  | .lowering => True

def Consumer.Knows (sched : Sched) : Consumer -> Prop
  | .outside | .enter | .bulk _ | .burst _ => sched.driver.sendMbufLen ≠ 0 -> sched.sendqsEmpty = false
  | .remove _ => sched.driver.sendMbufLen = 0
  | .raise _ => sched.driver.sendMbufLen = 0 ∧ sched.sendqsEmpty = false
  | .scan _ second _ cpu _ | .take _ second _ cpu _ =>
    sched.driver.sendMbufLen = 0 ∧ cpu < sched.maxcpus ∧ (second = false -> sched.sendqsEmpty = false)
  | .found _ cpu _ => sched.driver.sendMbufLen = 0 ∧ cpu < sched.maxcpus
  | .lower _ => True

-- A queue without entries holds nothing, and no one can look into it.
def Holds (queue : FifoQueue) (list : List Item) : Prop := Tracked queue list ∨ queue.maxQueueLength ≤ 0 ∧ list = []

structure Awake (threads : Threads) (items : Nat -> List Item) : Prop where
  carries : ∀ cpu < threads.sched.maxcpus, Holds (threads.sched.sendQueues cpu) (items cpu)
  lastQ : threads.sched.lastQ < threads.sched.maxcpus
  knows : threads.consumer.Knows threads.sched
  covered : threads.sched.sendqsEmpty = true -> ∀ other < threads.sched.maxcpus, items other ≠ [] ->
    (∃ id, (threads.producers id).Covers other) ∨ threads.consumer.Covers threads.sched.maxcpus other

section

variable {queue after : FifoQueue} {list : List Item}

theorem Holds.tracked {index : Nat} {entry : Fifo.Entry} (holds : Holds queue list)
    (read : queue.entry index = some entry) : Tracked queue list := by
  refine holds.resolve_right fun absent => ?_
  rw [FifoQueue.entry, if_neg (by omega)] at read
  cases read

theorem Holds.add {item : Item} {ret : Bool} (holds : Holds queue list) (low : -2 ^ 31 ≤ item.len)
    (high : item.len < 2 ^ 31)
    (ran : Fifo.addToQueue queue item.buf item.len item.flags = some (ret, after)) :
    after = queue ∨ ret = true ∧ Holds after (list ++ [item]) := by
  by_cases blank : item.buf = 0 ∨ item.len = 0
  · cases ran.symm.trans (if_pos blank)
    exact .inl rfl
  have found := ran
  rw [Fifo.addToQueue, if_neg blank] at found
  obtain ⟨entry, read, -⟩ := bind_iff.1 found
  rcases (holds.tracked read).offer low high with refused | ⟨-, added, tracked⟩
  · cases refused.symm.trans ran
    exact .inl rfl
  · cases added.symm.trans ran
    exact .inr ⟨rfl, .inl tracked⟩

end

section

variable {sendBurst : Int} {threads next : Threads} {items : Nat -> List Item} {id : Nat}

section

variable (awake : Awake threads items)

include awake

theorem Awake.lowered : Awake (threads.withFlag false) items := by
  refine ⟨awake.carries, awake.lastQ, ?_, fun raised => by cases raised⟩
  have knows := awake.knows
  simp only [Threads.withFlag]
  cases place : threads.consumer <;> simp_all [Consumer.Knows]

theorem Awake.set {producer : Producer}
    (covers : threads.sched.sendqsEmpty = true -> ∀ other, (threads.producers id).Covers other -> producer.Covers other) :
    Awake (threads.set id producer) items := by
  refine { awake with covered := fun raised other inside waits => ?_ }
  rcases awake.covered raised other inside waits with ⟨who, covered⟩ | ahead
  · by_cases same : who = id
    · subst same
      exact .inl ⟨who, by simpa [Threads.set] using covers raised other covered⟩
    · exact .inl ⟨who, by simpa [Threads.set, same] using covered⟩
  · exact .inr ahead

theorem Awake.test {cpu : Nat} {ret : Bool} (place : threads.producers id = .added cpu ret) :
    Awake (threads.set id (if threads.sched.sendqsEmpty ∧ ret then .lowering else .outside)) items := by
  refine awake.set fun raised other covered => ?_
  rw [place] at covered
  rw [raised, covered.2]
  trivial

theorem Awake.lower : Awake ((threads.withFlag false).set id .outside) items :=
  awake.lowered.set fun raised => by cases raised

theorem Awake.insert {cpu : Nat} {item : Item} (place : threads.producers id = .outside)
    (inside : cpu < threads.sched.maxcpus) (low : -2 ^ 31 ≤ item.len) (high : item.len < 2 ^ 31)
    (moved : threadStep sendBurst threads (.insert id cpu item) = some next) : ∃ items', Awake next items' := by
  rw [threadStep, if_pos place] at moved
  obtain ⟨⟨ret, queue⟩, ran, moved⟩ := bind_iff.1 moved
  cases moved
  rcases (awake.carries cpu inside).add low high ran with rfl | ⟨rfl, held⟩
  · rw [update_eq_self]
    refine ⟨items, awake.set fun _ other covered => ?_⟩
    rw [place] at covered
    cases covered
  refine ⟨update items cpu (items cpu ++ [item]), queues_update awake.carries held rfl rfl, awake.lastQ, awake.knows,
    fun raised other valid waits => ?_⟩
  by_cases here : other = cpu
  · exact .inl ⟨id, by simp [Threads.set, Producer.Covers, here]⟩
  rw [update_of_ne here] at waits
  rcases awake.covered raised other valid waits with ⟨who, covered⟩ | ahead
  · refine .inl ⟨who, ?_⟩
    by_cases same : who = id
    · subst same
      rw [place] at covered
      cases covered
    · simpa [Threads.set, same] using covered
  · exact .inr ahead

theorem Awake.goto {consumer : Consumer} (knows : consumer.Knows threads.sched)
    (covers : threads.sched.sendqsEmpty = true -> ∀ other < threads.sched.maxcpus, items other ≠ [] ->
      threads.consumer.Covers threads.sched.maxcpus other -> consumer.Covers threads.sched.maxcpus other) :
    Awake (threads.goto consumer) items :=
  ⟨awake.carries, awake.lastQ, knows, fun raised other inside waits =>
    (awake.covered raised other inside waits).imp_right (covers raised other inside waits)⟩

end

variable {pktSend pkts cpu maxcpus other left : Nat} {second : Bool} {sends : List VringQueue}

theorem leave_knows {sched : Sched} (knows : sched.driver.sendMbufLen ≠ 0 -> sched.sendqsEmpty = false) :
    (leave sendBurst pktSend pkts).Knows sched := by
  rw [leave]
  split <;> exact knows

theorem not_ahead_zero : ¬ Ahead maxcpus 0 cpu other := by
  rintro ⟨k, positive, zero, -⟩
  omega

theorem nextCpu_eq (inside : cpu < maxcpus) : nextCpu maxcpus cpu = (cpu + 1) % maxcpus :=
  Ring.next_index inside

theorem Ahead.step (inside : cpu < maxcpus) (ahead : Ahead maxcpus (left + 1) cpu other) :
    other = nextCpu maxcpus cpu ∨ Ahead maxcpus left (nextCpu maxcpus cpu) other := by
  obtain ⟨k, positive, within, rfl⟩ := ahead
  rw [nextCpu_eq inside]
  by_cases first : k = 1
  · exact .inl (by rw [first])
  · refine .inr ⟨k - 1, by omega, by omega, ?_⟩
    rw [Nat.mod_add_mod, Nat.add_assoc, Nat.add_sub_cancel' positive]

theorem ahead_all (inside : cpu < maxcpus) (valid : other < maxcpus) : Ahead maxcpus maxcpus cpu other := by
  obtain ⟨k, within, rfl⟩ := Ring.exists_offset (Nat.mod_lt (cpu + 1) (Nat.zero_lt_of_lt inside)) valid
  refine ⟨k + 1, Nat.le_add_left .., within, ?_⟩
  rw [Nat.mod_add_mod, Nat.add_assoc, Nat.add_comm 1]

theorem Awake.endPass (awake : Awake threads items) (place : threads.consumer = .scan pktSend second 0 cpu pkts) :
    Awake (threads.goto (if second then if pkts > 0 then .found pktSend cpu pkts else leave sendBurst pktSend 0
      else if pkts = 0 then .raise pktSend else .scan pktSend true threads.sched.maxcpus threads.sched.lastQ pkts))
        items := by
  have knows := awake.knows
  rw [place] at knows
  obtain ⟨unsent, inside, low⟩ := knows
  split
  next =>
    split
    next => exact awake.goto ⟨unsent, inside⟩ fun _ _ _ _ _ => trivial
    next zero =>
      refine awake.goto (leave_knows fun more => absurd unsent more) fun _ other _ _ covered => ?_
      rw [place] at covered
      exact (covered.2.elim zero not_ahead_zero).elim
  next first =>
    have lowered := low (by simpa using first)
    split
    next => exact awake.goto ⟨unsent, lowered⟩ fun raised => by rw [lowered] at raised; cases raised
    next =>
      refine awake.goto ⟨unsent, awake.lastQ, fun second => by cases second⟩ fun raised => ?_
      rw [lowered] at raised
      cases raised

theorem Awake.look {empty : Bool} (awake : Awake threads items)
    (place : threads.consumer = .scan pktSend second (left + 1) cpu pkts)
    (read : isEmpty (threads.sched.sendQueues (nextCpu threads.sched.maxcpus cpu)) = some empty) :
    Awake (threads.goto (if empty then .scan pktSend second left (nextCpu threads.sched.maxcpus cpu) pkts
      else .take pktSend second left (nextCpu threads.sched.maxcpus cpu) pkts)) items := by
  have knows := awake.knows
  rw [place] at knows
  obtain ⟨unsent, inside, low⟩ := knows
  have next := nextCpu_lt inside
  obtain ⟨entry, found, -⟩ := bind_iff.1 read
  rw [isEmpty_eq ((awake.carries _ next).tracked found), some.injEq] at read
  split
  next nothing =>
    refine awake.goto ⟨unsent, next, low⟩ fun _ other _ waits covered => ?_
    rw [place] at covered
    refine ⟨covered.1, covered.2.imp_right fun ahead => (Ahead.step inside ahead).resolve_left ?_⟩
    rintro rfl
    rw [nothing, List.isEmpty_iff] at read
    exact waits read
  next =>
    refine awake.goto ⟨unsent, next, low⟩ fun _ other _ waits covered => ?_
    rw [place] at covered
    exact ⟨covered.1, covered.2.imp_right (Ahead.step inside)⟩

theorem takeOne_cases {sched : Sched} {list : List Item} {result : Option Sched}
    (holds : Holds (sched.sendQueues cpu) list) (ran : takeOne sched cpu pkts = some result) :
    result = none ∧ (pkts ≥ maxBufListSize ∨ list = []) ∨
    ∃ item rest after, list = item :: rest ∧ Holds ((sched.sendQueues cpu).consume item.entry) rest ∧
      result = some after ∧
      after.sendQueues = update sched.sendQueues cpu ((sched.sendQueues cpu).consume item.entry) ∧
      after.maxcpus = sched.maxcpus ∧ after.lastQ = sched.lastQ ∧ after.sendqsEmpty = sched.sendqsEmpty ∧
      after.driver.sendMbufLen = sched.driver.sendMbufLen := by
  rw [takeOne] at ran
  split at ran
  next full =>
    cases ran
    exact .inl ⟨rfl, .inl full⟩
  obtain ⟨entry, found, ran⟩ := bind_iff.1 ran
  have tracked := holds.tracked found
  cases (Fifo.entry_inside tracked.ring.inside).symm.trans found
  cases list with
  | nil =>
    rw [if_pos tracked.empty] at ran
    cases ran
    exact .inl ⟨rfl, .inr rfl⟩
  | cons item rest =>
    have valid := tracked.valid item List.mem_cons_self
    rw [tracked.first, if_neg (show item.entry.buf ≠ 0 from valid.buf)] at ran
    cases ran
    exact .inr ⟨item, rest, _, rfl, .inl tracked.consume, rfl, rfl, rfl, rfl, rfl, rfl⟩

theorem Awake.take (awake : Awake threads items) (place : threads.consumer = .take pktSend second left cpu pkts)
    (moved : consume sendBurst sends threads = some next) : ∃ items', Awake next items' := by
  have knows := awake.knows
  rw [place] at knows
  obtain ⟨unsent, inside, low⟩ := knows
  simp only [consume, place, bind_iff] at moved
  obtain ⟨result, ran, moved⟩ := moved
  rcases takeOne_cases (awake.carries cpu inside) ran with ⟨rfl, ends⟩ |
    ⟨item, rest, after, list, held, rfl, queues, cpus, last, flag, len⟩
  · cases moved
    refine ⟨items, ?_⟩
    split
    next => exact awake.goto ⟨unsent, inside⟩ fun _ _ _ _ _ => trivial
    next room =>
      refine awake.goto ⟨unsent, inside, low⟩ fun _ other _ waits covered => ?_
      rw [place] at covered
      refine ⟨covered.1, covered.2.imp_right fun either => either.resolve_left ?_⟩
      rintro rfl
      exact waits (ends.resolve_left room)
  cases moved
  refine ⟨update items cpu rest, queues_update awake.carries held queues cpus, ?_, ?_, fun raised other valid waits => ?_⟩
  · exact (last.trans_lt awake.lastQ).trans_eq cpus.symm
  · refine ⟨len.trans unsent, inside.trans_eq cpus.symm, fun first => flag.trans (low first)⟩
  have before : items other ≠ [] := by
    by_cases here : other = cpu
    · rw [here, list]
      exact List.cons_ne_nil _ _
    · rwa [update_of_ne here] at waits
  refine (awake.covered (flag.symm.trans raised) other (valid.trans_eq cpus) before).imp_right fun covered => ?_
  rw [place] at covered
  exact ⟨covered.1, .inl (Nat.succ_pos _)⟩

theorem Awake.found (awake : Awake threads items) (place : threads.consumer = .found pktSend cpu pkts) :
    Awake { threads with
      sched := { threads.sched with driver := { threads.sched.driver with sendMbufLen := pkts }, lastQ := cpu }
      consumer := if threads.sched.sendqsEmpty then .lower pktSend else .burst pktSend } items := by
  have knows := awake.knows
  rw [place] at knows
  refine ⟨awake.carries, knows.2, ?_, fun raised other inside waits => ?_⟩
  · cases flag : threads.sched.sendqsEmpty with
    | false => exact fun _ => flag
    | true => trivial
  · have raised' : threads.sched.sendqsEmpty = true := raised
    rw [if_pos raised']
    exact .inr trivial

theorem Awake.raise (awake : Awake threads items) (place : threads.consumer = .raise pktSend) :
    Awake ((threads.withFlag true).goto (.scan pktSend true threads.sched.maxcpus threads.sched.lastQ 0)) items := by
  have knows := awake.knows
  rw [place] at knows
  refine ⟨awake.carries, awake.lastQ, ⟨knows.1, awake.lastQ, fun first => by cases first⟩, fun _ other inside _ => ?_⟩
  exact .inr ⟨rfl, .inr (ahead_all awake.lastQ inside)⟩

theorem burstSend_le {driver driver' : Driver} {n : Nat} (ran : burstSend driver = some (n, driver')) :
    driver'.sendMbufLen ≤ driver.sendMbufLen := by
  rw [burstSend] at ran
  split at ran
  next =>
    cases ran
    exact Nat.le_refl _
  split_ifs at ran
  obtain ⟨reclaimed, -, ran⟩ := bind_iff.1 ran
  obtain ⟨⟨ret, sends, sent⟩, -, ran⟩ := bind_iff.1 ran
  dsimp only at ran
  split_ifs at ran
  all_goals cases ran
  · exact Nat.le_refl _
  · exact Nat.zero_le _
  · exact Nat.sub_le ..

theorem Awake.burst (awake : Awake threads items) (place : threads.consumer = .burst pktSend)
    (moved : consume sendBurst sends threads = some next) : Awake next items := by
  have knows := awake.knows
  simp only [consume, place, bind_iff] at moved
  obtain ⟨⟨ret, driver⟩, sent, moved⟩ := moved
  cases moved
  rw [place] at knows
  have fewer := burstSend_le sent
  refine ⟨awake.carries, awake.lastQ, leave_knows fun more => knows ?_, fun raised other inside waits => ?_⟩
  · intro zero
    rw [zero] at fewer
    exact more (Nat.eq_zero_of_le_zero fewer)
  · refine (awake.covered raised other inside waits).imp_right fun covered => ?_
    rw [place] at covered
    cases covered

theorem Awake.consume (awake : Awake threads items) (moved : consume sendBurst sends threads = some next) :
    ∃ items', Awake next items' := by
  have knows := awake.knows
  -- places that cover nothing: the next one need not either
  have goto_uncovered {consumer : Consumer} (new : consumer.Knows threads.sched)
      (uncovered : ∀ other, ¬ threads.consumer.Covers threads.sched.maxcpus other) :
        Awake (threads.goto consumer) items :=
    awake.goto new fun _ other _ _ covered => absurd covered (uncovered other)
  have ran := moved
  rw [NetSched.consume] at ran
  cases place : threads.consumer <;> rw [place] at knows ran
  case outside =>
    cases ran
    exact ⟨items, goto_uncovered knows (by rw [place]; exact fun _ => id)⟩
  case enter =>
    cases ran
    refine ⟨items, goto_uncovered ?_ (by rw [place]; exact fun _ => id)⟩
    split <;> exact knows
  case bulk pktSend =>
    cases ran
    refine ⟨items, goto_uncovered ?_ (by rw [place]; exact fun _ => id)⟩
    split
    next => exact leave_knows knows
    split
    next => exact knows
    next zero => exact not_not.1 zero
  case remove pktSend =>
    cases ran
    refine ⟨items, goto_uncovered ?_ (by rw [place]; exact fun _ => id)⟩
    split
    next => exact leave_knows fun more => absurd knows more
    next lowered => exact ⟨knows, awake.lastQ, fun _ => by simpa using lowered⟩
  case scan pktSend second left cpu pkts =>
    cases left with
    | zero =>
      cases ran
      exact ⟨items, awake.endPass place⟩
    | succ left =>
      obtain ⟨empty, read, moved⟩ := bind_iff.1 ran
      cases moved
      exact ⟨items, awake.look place read⟩
  case take => exact awake.take place moved
  case raise =>
    cases ran
    exact ⟨items, awake.raise place⟩
  case found =>
    cases ran
    exact ⟨items, awake.found place⟩
  case lower =>
    cases ran
    exact ⟨items, awake.lowered.goto (fun _ => rfl) fun raised => by cases raised⟩
  case burst => exact ⟨items, awake.burst place moved⟩

end

def ThreadAllowed (threads : Threads) : ThreadEvent -> Prop
  | .insert _ cpu item => cpu < threads.sched.maxcpus ∧ -2 ^ 31 ≤ item.len ∧ item.len < 2 ^ 31
  | _ => True

def ThreadStart (maxcpus : Nat) (length : Int) (threads : Threads) : Prop :=
  ∃ accepted, Start maxcpus length (threads.sched, accepted) ∧ threads.consumer = .outside ∧
    threads.producers = fun _ => .outside

section

variable {sendBurst : Int} {threads next : Threads} {items : Nat -> List Item} {event : ThreadEvent}

theorem Awake.step (awake : Awake threads items) (allowed : ThreadAllowed threads event)
    (moved : threadStep sendBurst threads event = some next) : ∃ items', Awake next items' := by
  cases event with
  | insert id cpu item =>
    by_cases place : threads.producers id = .outside
    · exact awake.insert place allowed.1 allowed.2.1 allowed.2.2 moved
    · rw [threadStep, if_neg place] at moved
      cases moved
  | test id =>
    rw [threadStep] at moved
    split at moved
    next cpu ret place =>
      cases moved
      exact ⟨items, awake.test place⟩
    next => cases moved
  | lower id =>
    rw [threadStep] at moved
    split_ifs at moved
    cases moved
    exact ⟨items, awake.lower⟩
  | consume sends => exact awake.consume moved

end

def Threads.Holding (threads : Threads) : Prop :=
  (∃ cpu < threads.sched.maxcpus, ∃ i : Nat, (i : Int) < (threads.sched.sendQueues cpu).maxQueueLength ∧
    ((threads.sched.sendQueues cpu).data i).buf ≠ 0) ∨ threads.sched.driver.sendMbufLen ≠ 0

-- No one will send what waits.
def Threads.Asleep (threads : Threads) : Prop :=
  threads.sched.sendqsEmpty = true ∧ threads.consumer = .outside ∧ (∀ id, threads.producers id = .outside) ∧
    threads.Holding

theorem Awake.not_asleep {threads : Threads} {items : Nat -> List Item} (awake : Awake threads items) :
    ¬ threads.Asleep := by
  rintro ⟨raised, outside, idle, ⟨cpu, inside, i, valid, used⟩ | more⟩
  · have tracked := (awake.carries cpu inside).resolve_right (by omega)
    by_cases empty : items cpu = []
    · rw [empty] at tracked
      have vacant := tracked.ring.vacant (show i < (threads.sched.sendQueues cpu).size by rw [Fifo.FifoQueue.size]; omega)
      rw [Fifo.FifoQueue.slot, if_neg used] at vacant
      cases vacant
    rcases awake.covered raised cpu inside empty with ⟨id, covered⟩ | covered
    · rw [idle id] at covered
      cases covered
    · rw [outside] at covered
      cases covered
  · have knows := awake.knows
    rw [outside] at knows
    rw [knows more] at raised
    cases raised

theorem no_frame_forgotten (maxcpus : Nat) (cpus : 0 < maxcpus) (length : Int) (small : length < 2 ^ 31) (sendBurst : Int)
    (threads : Threads)
    (reached : Reachable (ThreadStart maxcpus length) (threadStep sendBurst) ThreadAllowed threads) :
    ¬ threads.Asleep := by
  have awake : ∃ items, Awake threads items := by
    induction reached with
    | start first =>
      obtain ⟨accepted, start, outside, -⟩ := first
      have held : Holds (Fifo.init length) [] := by
        by_cases positive : 0 < length
        · exact .inl (Fifo.init_tracked positive small)
        · exact .inr ⟨Int.not_lt.1 positive, rfl⟩
      obtain ⟨list, same⟩ := start
      have first := (Prod.mk.inj same).1
      refine ⟨fun _ => [], ?_, ?_, ?_, fun _ other _ waits => absurd rfl waits⟩
      · rw [first]
        exact fun _ _ => held
      · rw [first]
        exact cpus
      · rw [outside, first]
        exact fun more => absurd rfl more
    | next _ allowed moved ih =>
      obtain ⟨items, awake⟩ := ih
      exact awake.step allowed moved
  obtain ⟨items, awake⟩ := awake
  exact awake.not_asleep

instance (threads : Threads) : (event : ThreadEvent) -> Decidable (ThreadAllowed threads event)
  | .insert _ cpu item =>
    inferInstanceAs (Decidable (cpu < threads.sched.maxcpus ∧ -2 ^ 31 ≤ item.len ∧ item.len < 2 ^ 31))
  | .test _ | .lower _ | .consume _ => inferInstanceAs (Decidable True)

theorem no_frame_forgotten_two : ∃ threads, Reachable (ThreadStart 1 2) (threadStep 128) ThreadAllowed threads ∧
    threads.sched.sendqsEmpty = true ∧ (∀ i < 2, ((threads.sched.sendQueues 0).data i).buf ≠ 0) ∧ threads.Holding ∧
      ¬ threads.Asleep := by
  have outcome : ([ThreadEvent.insert 0 0 small, .test 0, .insert 1 0 small].foldlM (fun threads event =>
      if decide (ThreadAllowed threads event) then threadStep 128 threads event else none) { sched := oneCpu.1 }).any
      (fun threads => threads.sched.sendqsEmpty = true ∧ threads.sched.maxcpus = 1 ∧
        (threads.sched.sendQueues 0).maxQueueLength = 2 ∧ ∀ i < 2, ((threads.sched.sendQueues 0).data i).buf ≠ 0) =
          true := by
    decide +kernel
  obtain ⟨threads, ran, raised, cpus, length, used⟩ := holds_of_any outcome
  have reached : Reachable (ThreadStart 1 2) (threadStep 128) ThreadAllowed threads :=
    .checked (fun _ _ _ => of_decide_eq_true) (.start ⟨oneCpu.2, ⟨_, rfl⟩, rfl, rfl⟩) ran
  refine ⟨threads, reached, raised, used, .inl ⟨0, by omega, 0, by omega, used 0 (by decide)⟩, ?_⟩
  exact no_frame_forgotten 1 (by decide) 2 (by decide) 128 threads reached

end JinyKernel.NetSched
