import JinyKernel.Shared.Run
import JinyKernel.WaitQueue.Agenda

namespace JinyKernel.WaitQueue

open Deltas Function List Option Run

structure Wake where
  request : Request
  step : Nat

structure Watch where
  waitQueues : Nat -> Option Queue
  steps : Nat
  arrivals : Nat
  asked : Nat -> Request
  woken : Nat -> List Wake

inductive Event where
  | add (i p : Nat) (ticks : Long)
  | del (i p : Nat)
  | check

variable (w : Watch)

def Watch.wakes (i : Nat) : List Wake :=
  match (ipcCheckWaitqueues w.waitQueues).1 i with
  | none => []
  | some task => [⟨w.asked task, w.steps + 1⟩]

def step : Event -> Option Watch
  | .add i p ticks => do
      let queue ← w.waitQueues i
      some { w with
        waitQueues := update w.waitQueues i (some (addToMe p ticks queue))
        arrivals := w.arrivals + 1
        asked := update w.asked p ⟨p, ticks, w.steps, w.arrivals⟩ }
  | .del i p => do
      let queue ← w.waitQueues i
      some { w with waitQueues := update w.waitQueues i (some (delFromMe p queue).2) }
  | .check => some { w with
      waitQueues := (ipcCheckWaitqueues w.waitQueues).2
      steps := w.steps + 1
      woken := fun i => w.woken i ++ w.wakes i }

def Start : Prop :=
  (∀ i queue, w.waitQueues i = some queue -> queue = []) ∧ w.steps = 0 ∧ ∀ i, w.woken i = []

def Allowed : Event -> Prop
  | .add _ p ticks => 0 ≤ ticks.toInt ∧ p ≠ 0 ∧ ∀ j queue, w.waitQueues j = some queue -> p ∉ queue.map Prod.fst
  | .del _ _ => True
  | .check => w.steps + 1 < 2 ^ 63

structure Pending (asked : Nat -> Request) (arrivals steps : Nat) (request : Request) : Prop where
  asked : asked request.task = request
  present : request.task ≠ 0
  arrived : request.arrival < arrivals
  lasting : 0 ≤ request.deadline ∧ request.deadline < steps + 2 ^ 63

structure Past (arrivals steps : Nat) (wake : Wake) : Prop where
  due : wake.request.deadline ≤ wake.step
  step : wake.step ≤ steps
  arrived : wake.request.arrival < arrivals

structure Tracks (log : List Wake) (queue : Queue) (agenda : List Request) : Prop where
  stored : queue = stored w.steps agenda
  pending : ∀ request ∈ agenda, Pending w.asked w.arrivals w.steps request
  ordered : (log.map Wake.request ++ agenda).Pairwise Before
  steps : w.steps < 2 ^ 63
  past : ∀ wake ∈ log, Past w.arrivals w.steps wake

def Inv : Prop :=
  ∀ i queue, w.waitQueues i = some queue -> ∃ agenda, Tracks w (w.woken i) queue agenda

namespace Tracks

variable {w : Watch} {log : List Wake} {queue : Queue} {agenda : List Request}

variable (tracks : Tracks w log queue agenda)

include tracks

theorem tasks : queue.map Prod.fst = agenda.map Request.task := by
  rw [tracks.stored]
  exact encode_keys _ _

theorem requests : (queue.map fun entry => w.asked entry.1) = agenda := by
  have through : (queue.map Prod.fst).map w.asked = agenda := by
    rw [tracks.tasks, List.map_map]
    exact (map_congr_left fun request among => (tracks.pending request among).asked).trans (map_id agenda)
  rwa [List.map_map] at through

theorem nears : ∀ request ∈ agenda, Near w.steps request.deadline ∧ Near (w.steps + 1) request.deadline := by
  intro request among
  have lasting := (tracks.pending request among).lasting
  have steps := tracks.steps
  exact ⟨⟨by omega, by omega⟩, by omega, by omega⟩

theorem near : ∀ request ∈ agenda, Near w.steps request.deadline := fun request among => (tracks.nears request among).1

theorem nearNext : ∀ request ∈ agenda, Near (w.steps + 1) request.deadline :=
  fun request among => (tracks.nears request among).2

theorem sums_eq :
    (sums 0 queue).map BitVec.toInt = agenda.map fun request : Request => request.deadline - (w.steps : Int) := by
  rw [tracks.stored]
  exact sums_stored tracks.near

theorem agenda_ordered : agenda.Pairwise Before :=
  (pairwise_append.1 tracks.ordered).2.1

theorem pendingElsewhere {p : Nat} (absent : p ∉ queue.map Prod.fst) {new : Request} :
    ∀ request ∈ agenda, Pending (update w.asked p new) (w.arrivals + 1) w.steps request := by
  intro request among
  obtain ⟨asked, present, arrived, lasting⟩ := tracks.pending request among
  have other : request.task ≠ p := by
    rintro rfl
    rw [tracks.tasks] at absent
    exact absent (mem_map_of_mem among)
  exact ⟨(update_of_ne other ..).trans asked, present, Nat.lt_succ_of_lt arrived, lasting⟩

theorem pastLater : ∀ wake ∈ log, Past (w.arrivals + 1) w.steps wake :=
  fun wake among => { tracks.past wake among with arrived := Nat.lt_succ_of_lt (tracks.past wake among).arrived }

theorem add {p : Nat} {ticks : Long} (lasting : 0 ≤ ticks.toInt) (real : p ≠ 0)
    (fresh : p ∉ queue.map Prod.fst) (queues : Nat -> Option Queue) :
    Tracks { w with
        waitQueues := queues
        arrivals := w.arrivals + 1
        asked := update w.asked p ⟨p, ticks, w.steps, w.arrivals⟩ }
      log (addToMe p ticks queue) (agenda.orderedInsert Later ⟨p, ticks, w.steps, w.arrivals⟩) where
  stored := by
    rw [tracks.stored]
    exact addToMe_stored ⟨p, ticks, w.steps, w.arrivals⟩ rfl tracks.near
  pending request among := by
    rcases (mem_orderedInsert _).1 among with rfl | old
    · have most : ticks.toInt < 2 ^ 63 := BitVec.toInt_lt
      refine ⟨update_self .., real, Nat.lt_succ_self _, ?_⟩
      simp only [Request.deadline]
      omega
    · exact tracks.pendingElsewhere fresh request old
  ordered := by
    obtain ⟨woken, _, across⟩ := pairwise_append.1 tracks.ordered
    refine pairwise_append.2 ⟨woken, ?_, ?_⟩
    · apply pairwise_orderedInsert tracks.agenda_ordered
      · exact fun item _ later => .inl later
      · intro item among notLater
        have arrived := (tracks.pending item among).arrived
        rcases (not_lt.1 notLater).lt_or_eq with earlier | same
        · exact .inl earlier
        · exact .inr ⟨same, arrived⟩
      · exact fun a b before later => lt_of_lt_of_le later before.deadline_le
    intro earlier logged request among
    rcases (mem_orderedInsert _).1 among with rfl | old
    · -- whoever was woken was due by now, and the new task is due now at the earliest
      obtain ⟨wake, inLog, rfl⟩ := mem_map.1 logged
      obtain ⟨reached, _, arrived⟩ := tracks.past wake inLog
      simp only [Before, Request.deadline] at reached ⊢
      omega
    · exact across earlier logged request old
  steps := tracks.steps
  past := tracks.pastLater

theorem elsewhere {p : Nat} (absent : p ∉ queue.map Prod.fst)
    (queues : Nat -> Option Queue) (new : Request) :
    Tracks { w with
        waitQueues := queues
        arrivals := w.arrivals + 1
        asked := update w.asked p new } log queue agenda where
  __ := tracks
  pending := tracks.pendingElsewhere absent
  past := tracks.pastLater

theorem del (p : Nat) (queues : Nat -> Option Queue) :
    Tracks { w with waitQueues := queues } log (delFromMe p queue).2 (drop p agenda) := by
  have fewer : (drop p agenda).Sublist agenda := eraseP_sublist
  exact {
    stored := by
      rw [tracks.stored]
      exact delFromMe_stored w.steps p agenda fun request among => (tracks.pending request among).present
    pending := fun request among => tracks.pending request (fewer.subset among)
    ordered := tracks.ordered.sublist (List.Sublist.append_left fewer _)
    steps := tracks.steps
    past := tracks.past }

theorem checked : checkWaitqueue queue =
    ((expire (w.steps + 1) agenda).1, WaitQueue.stored (w.steps + 1) (expire (w.steps + 1) agenda).2) := by
  rw [tracks.stored]
  exact checkWaitqueue_stored (fun request among => (tracks.pending request among).present) tracks.nearNext

theorem check (inTime : w.steps + 1 < 2 ^ 63) (queues : Nat -> Option Queue) (woken : Nat -> List Wake) :
    Tracks { w with waitQueues := queues, steps := w.steps + 1, woken := woken }
      (log ++ (checkWaitqueue queue).1.toList.map fun task => ⟨w.asked task, w.steps + 1⟩)
      (checkWaitqueue queue).2 (expire (w.steps + 1) agenda).2 := by
  rw [tracks.checked]
  have pending : ∀ request ∈ agenda, Pending w.asked w.arrivals (w.steps + 1) request := by
    intro request among
    obtain ⟨asked, present, arrived, lasting⟩ := tracks.pending request among
    exact ⟨asked, present, arrived, by omega⟩
  have past : ∀ wake ∈ log, Past w.arrivals (w.steps + 1) wake :=
    fun wake among => { tracks.past wake among with step := Nat.le_succ_of_le (tracks.past wake among).step }
  cases agenda with
  | nil =>
    simp only [expire, toList_none, map_nil, append_nil]
    exact { tracks with stored := rfl, pending := pending, steps := inTime, past := past }
  | cons first rest =>
    by_cases due : first.deadline ≤ w.steps + 1
    · -- the first request moves from the agenda to the end of the log
      obtain ⟨asked, _, arrived, _⟩ := tracks.pending first (by simp)
      simp only [expire, if_pos due, toList_some, map_cons, map_nil, asked]
      exact {
        stored := rfl
        pending := fun request among => pending request (by simp [among])
        ordered := by simpa using tracks.ordered
        steps := inTime
        past := forall_mem_append.2 ⟨past, forall_mem_singleton.2 ⟨due, le_rfl, arrived⟩⟩ }
    · simp only [expire, if_neg due, toList_none, map_nil, append_nil]
      exact { tracks with stored := by simp, pending := pending, steps := inTime, past := past }

end Tracks

variable {w : Watch} {i : Nat} {queue : Queue} {agenda : List Request}

theorem Start.inv (start : Start w) : Inv w := by
  intro i queue registered
  obtain ⟨empty, first, silent⟩ := start
  refine ⟨[], ?_⟩
  rw [empty i queue registered, silent i]
  constructor <;> simp [first]

theorem wakes_eq (registered : w.waitQueues i = some queue) :
    w.wakes i = (checkWaitqueue queue).1.toList.map fun task => ⟨w.asked task, w.steps + 1⟩ := by
  simp only [Watch.wakes, ipcCheckWaitqueues, registered, bind_some]
  cases (checkWaitqueue queue).1 with
  | none | some task => rfl

theorem registered_update {queues : Nat -> Option Queue} {j : Nat} {new other : Queue}
    (found : update queues i (some new) j = some other) : j = i ∧ new = other ∨ queues j = some other := by
  by_cases here : j = i
  · subst here
    rw [update_self, Option.some.injEq] at found
    exact .inl ⟨rfl, found⟩
  · rw [update_of_ne here] at found
    exact .inr found

theorem step_tracks {event : Event} {next : Watch} (inv : Inv w) (may : Allowed w event)
    (moved : step w event = some next) {after : Queue} (found : next.waitQueues i = some after) :
    ∃ queue agenda later, w.waitQueues i = some queue ∧ Tracks w (w.woken i) queue agenda ∧
      Tracks next (next.woken i) after later ∧
      (next.steps = w.steps ∧ (∀ request ∈ later, request ∈ agenda ∨
        request.deadline = w.steps + request.ticks.toInt ∧ ∃ p, event = .add i p request.ticks) ∨
      event = .check ∧ next.steps = w.steps + 1 ∧ later = (expire (w.steps + 1) agenda).2) := by
  cases event with
  | add j p ticks =>
    obtain ⟨lasting, real, fresh⟩ := may
    obtain ⟨queue, registered, done⟩ := bind_iff.1 moved
    cases done
    rcases registered_update found with ⟨rfl, rfl⟩ | kept
    · obtain ⟨agenda, tracks⟩ := inv i queue registered
      refine ⟨_, _, _, registered, tracks, tracks.add lasting real (fresh i queue registered) _,
        .inl ⟨rfl, fun request among => ?_⟩⟩
      rcases (mem_orderedInsert _).1 among with rfl | old
      · exact .inr ⟨rfl, p, rfl⟩
      · exact .inl old
    · obtain ⟨agenda, tracks⟩ := inv i after kept
      exact ⟨_, _, _, kept, tracks, tracks.elsewhere (fresh i after kept) _ _,
        .inl ⟨rfl, fun request => .inl⟩⟩
  | del j p =>
    obtain ⟨queue, registered, done⟩ := bind_iff.1 moved
    cases done
    rcases registered_update found with ⟨rfl, rfl⟩ | kept
    · obtain ⟨agenda, tracks⟩ := inv i queue registered
      exact ⟨_, _, _, registered, tracks, tracks.del p _,
        .inl ⟨rfl, fun request among => .inl (eraseP_sublist.subset among)⟩⟩
    · obtain ⟨agenda, tracks⟩ := inv i after kept
      exact ⟨_, _, _, kept, tracks, { tracks with }, .inl ⟨rfl, fun request => .inl⟩⟩
  | check =>
    cases moved
    obtain ⟨queue, registered, rfl⟩ := map_eq_some_iff.1 found
    obtain ⟨agenda, tracks⟩ := inv i queue registered
    refine ⟨_, _, _, registered, tracks, ?_, .inr ⟨rfl, rfl, rfl⟩⟩
    simp only [wakes_eq registered]
    exact tracks.check may _ _

theorem step_inv (w : Watch) (event : Event) (next : Watch) (inv : Inv w) (may : Allowed w event)
    (moved : step w event = some next) : Inv next := by
  intro i after found
  obtain ⟨_, _, later, _, _, tracks, _⟩ := step_tracks inv may moved found
  exact ⟨later, tracks⟩

theorem reachable_inv {allowed : Watch -> Event -> Prop} (within : ∀ w event, allowed w event -> Allowed w event)
    (reached : Reachable Start step allowed w) : Inv w :=
  reached.invariant (fun _ => Start.inv) fun w event next inv may => step_inv w event next inv (within w event may)

-- The request fits into a `long` when it is counted from the deadline of the head.
def AllowedClose (w : Watch) : Event -> Prop
  | .add i p ticks => Allowed w (.add i p ticks) ∧
      ∀ queue, w.waitQueues i = some queue -> ∀ first ∈ queue.head?, ticks.toInt < first.2.toInt + 2 ^ 63
  | event => Allowed w event

theorem AllowedClose.allowed {event : Event} (may : AllowedClose w event) : Allowed w event := by
  cases event with
  | add => exact may.1
  | del | check => exact may

def Close (w : Watch) : Prop :=
  ∀ i queue, w.waitQueues i = some queue -> ∀ a ∈ queue, ∀ b ∈ queue,
    (w.asked b.1).deadline < (w.asked a.1).deadline + 2 ^ 63

theorem Tracks.close_iff {log : List Wake} (tracks : Tracks w log queue agenda) :
    (∀ a ∈ queue, ∀ b ∈ queue, (w.asked b.1).deadline < (w.asked a.1).deadline + 2 ^ 63) ↔
      ∀ a ∈ agenda, ∀ b ∈ agenda, b.deadline < a.deadline + 2 ^ 63 := by
  rw [← tracks.requests]
  simp only [List.forall_mem_map]

theorem Tracks.added_close {log : List Wake} (tracks : Tracks w log queue agenda) {ticks : Long}
    (close : ∀ first ∈ queue.head?, ticks.toInt < first.2.toInt + 2 ^ 63) :
    ∀ request ∈ agenda, w.steps + ticks.toInt < request.deadline + 2 ^ 63 := by
  cases agenda with
  | nil => simp
  | cons first rest =>
    have head := close (first.task, long first.deadline - long w.steps) (by simp [tracks.stored])
    rw [toInt_gap (tracks.near first (by simp))] at head
    intro request among
    rcases mem_cons.1 among with rfl | behind
    · omega
    · have later := ((pairwise_cons.1 tracks.agenda_ordered).1 request behind).deadline_le
      omega

theorem Tracks.deltas {log : List Wake} (tracks : Tracks w log queue agenda)
    (close : ∀ a ∈ agenda, ∀ b ∈ agenda, b.deadline < a.deadline + 2 ^ 63) :
    ∀ entry ∈ queue.tail, 0 ≤ entry.2.toInt := by
  rw [tracks.stored]
  cases agenda with
  | nil => simp
  | cons first rest =>
    intro entry among
    obtain ⟨a, fromHere, b, behind, before, gap⟩ := encode_gaps tracks.agenda_ordered entry among
    have later := before.deadline_le
    have near := close a fromHere b (mem_cons_of_mem _ behind)
    rw [gap, toInt_gap ⟨by omega, by omega⟩]
    omega

theorem Start.close (start : Start w) : Close w := by
  intro i queue registered
  rw [start.1 i queue registered]
  simp

theorem step_close (w : Watch) (event : Event) (next : Watch) (inv : Inv w) (close : Close w)
    (may : AllowedClose w event) (moved : step w event = some next) : Close next := by
  intro i after found
  obtain ⟨queue, agenda, later, registered, tracks, tracked, change⟩ := step_tracks inv may.allowed moved found
  have before := tracks.close_iff.1 (close i queue registered)
  rw [tracked.close_iff]
  intro a first b second
  rcases change with ⟨_, old⟩ | ⟨_, _, rfl⟩
  · rcases old a first with oldA | ⟨newA, p, added⟩ <;> rcases old b second with oldB | ⟨newB, other, same⟩
    · exact before a oldA b oldB
    · subst same
      have near := tracks.added_close (may.2 queue registered) a oldA
      omega
    · subst added
      have lasting := may.1.1
      have last := (tracks.pending b oldB).lasting
      omega
    · have equal := added.symm.trans same
      simp only [Event.add.injEq, true_and] at equal
      rw [newA, newB, equal.2]
      omega
  · have kept := expire_sublist (w.steps + 1) agenda
    exact before a (kept.subset first) b (kept.subset second)

theorem sleep_queue_deltas {w : Watch} (reached : Reachable Start step Allowed w) {i : Nat} {queue : Queue}
    (registered : w.waitQueues i = some queue) :
    ((sums 0 queue).map BitVec.toInt = queue.map fun entry =>
        (w.asked entry.1).ticks.toInt - ((w.steps : Int) - (w.asked entry.1).since)) ∧
      (Reachable Start step AllowedClose w -> ∀ entry ∈ queue.tail, 0 ≤ entry.2.toInt) ∧
      (∀ wake ∈ w.woken i, wake.request.ticks.toInt ≤ (wake.step : Int) - wake.request.since) ∧
      ((w.woken i).map Wake.request ++ queue.map fun entry => w.asked entry.1).Pairwise Before := by
  obtain ⟨agenda, tracks⟩ := reachable_inv (fun _ _ may => may) reached i queue registered
  refine ⟨?_, fun bounded => ?_, fun wake among => ?_, ?_⟩
  · have named : (queue.map fun entry =>
          (w.asked entry.1).ticks.toInt - ((w.steps : Int) - (w.asked entry.1).since)) =
        (queue.map fun entry => w.asked entry.1).map fun request : Request => request.deadline - (w.steps : Int) := by
      rw [List.map_map]
      apply map_congr_left
      intro entry _
      simp only [comp_apply, Request.deadline]
      omega
    rw [named, tracks.requests, tracks.sums_eq]
  · have both := bounded.invariant (fun _ start => And.intro (Start.inv start) (Start.close start))
      fun w event next before may moved => ⟨step_inv w event next before.1 may.allowed moved,
        step_close w event next before.1 before.2 may moved⟩
    exact tracks.deltas (tracks.close_iff.1 (both.2 i queue registered))
  · have reachedDeadline := (tracks.past wake among).due
    rw [Request.deadline] at reachedDeadline
    omega
  · rw [tracks.requests]
    exact tracks.ordered

def idle : Watch where
  waitQueues i := if i = 0 then some [] else none
  steps := 0
  arrivals := 0
  asked p := ⟨p, 0, 0, 0⟩
  woken _ := []

theorem idle_start : Start idle := by
  refine ⟨fun i queue registered => ?_, rfl, fun _ => rfl⟩
  simp only [idle] at registered
  split_ifs at registered
  exact (some.inj registered).symm

def OneDue (queue : Queue) : Prop := ((sums 0 queue).map BitVec.toInt).countP (· ≤ 1) ≤ 1

theorem expire_left {now : Int} (ordered : agenda.Pairwise Before) :
    (∀ request ∈ (expire now agenda).2, now < request.deadline) ↔
      agenda.countP (fun request => request.deadline ≤ now) ≤ 1 := by
  cases agenda with
  | nil => simp [expire]
  | cons first rest =>
    rw [pairwise_cons] at ordered
    by_cases due : first.deadline ≤ now
    · rw [expire, if_pos due, countP_cons_of_pos (by simpa using due), Nat.le_iff_lt_add_one,
        Nat.add_lt_add_iff_right, Nat.lt_one_iff, countP_eq_zero]
      simp
    have later : ∀ request ∈ first :: rest, now < request.deadline := by
      intro request among
      rcases mem_cons.1 among with rfl | behind
      · exact not_le.1 due
      · exact lt_of_lt_of_le (not_le.1 due) (ordered.1 request behind).deadline_le
    have zero : (first :: rest).countP (fun request => request.deadline ≤ now) = 0 := by
      rw [countP_eq_zero]
      intro request among
      simpa using later request among
    rw [expire, if_neg due, zero]
    simpa using later

theorem Tracks.oneDue_iff {log : List Wake} (tracks : Tracks w log queue agenda) :
    OneDue queue ↔ ∀ request ∈ (expire (w.steps + 1) agenda).2, (w.steps : Int) + 1 < request.deadline := by
  rw [expire_left tracks.agenda_ordered, OneDue, tracks.sums_eq, countP_map]
  have same : ((fun left : Int => decide (left ≤ 1)) ∘ fun request : Request => request.deadline - (w.steps : Int)) =
      fun request => decide (request.deadline ≤ (w.steps : Int) + 1) := by
    funext request
    simp only [comp_apply, decide_eq_decide]
    omega
  rw [same]

structure Punctual (w : Watch) (i : Nat) : Prop where
  waiting : ∀ queue, w.waitQueues i = some queue -> ∀ entry ∈ queue, 1 ≤ (w.asked entry.1).ticks.toInt ->
    (w.steps : Int) < (w.asked entry.1).deadline
  woken : ∀ wake ∈ w.woken i, 1 ≤ wake.request.ticks.toInt -> (wake.step : Int) = wake.request.deadline

def AllowedOneDue (i : Nat) (w : Watch) (event : Event) : Prop :=
  Allowed w event ∧ (event = .check -> ∀ queue, w.waitQueues i = some queue -> OneDue queue)

theorem Start.punctual (start : Start w) (i : Nat) : Punctual w i := by
  obtain ⟨empty, _, silent⟩ := start
  constructor
  · intro queue registered
    rw [empty i queue registered]
    simp
  · rw [silent i]
    simp

theorem Tracks.waiting_iff {log : List Wake} (tracks : Tracks w log queue agenda) :
    (∀ entry ∈ queue, 1 ≤ (w.asked entry.1).ticks.toInt -> (w.steps : Int) < (w.asked entry.1).deadline) ↔
      ∀ request ∈ agenda, 1 ≤ request.ticks.toInt -> (w.steps : Int) < request.deadline := by
  rw [← tracks.requests, List.forall_mem_map]

theorem Tracks.wakes_due (tracks : Tracks w (w.woken i) queue agenda) (registered : w.waitQueues i = some queue) :
    ∀ wake ∈ w.wakes i, wake.request ∈ agenda ∧ wake.step = w.steps + 1 ∧
      wake.request.deadline ≤ (w.steps : Int) + 1 := by
  rw [wakes_eq registered, tracks.checked]
  cases agenda with
  | nil => simp [expire]
  | cons first rest =>
    by_cases due : first.deadline ≤ (w.steps : Int) + 1
    · have asked := (tracks.pending first (by simp)).asked
      simp [expire, due, asked]
    · simp [expire, due]

theorem step_punctual (w : Watch) (event : Event) (next : Watch) (inv : Inv w) (punctual : Punctual w i)
    (may : AllowedOneDue i w event) (moved : step w event = some next) : Punctual next i := by
  constructor
  · intro after found
    obtain ⟨queue, agenda, later, registered, tracks, tracked, change⟩ := step_tracks inv may.1 moved found
    have waiting := tracks.waiting_iff.1 (punctual.waiting queue registered)
    refine tracked.waiting_iff.2 fun request among asked => ?_
    rcases change with ⟨steps, old⟩ | ⟨check, steps, rfl⟩
    · rw [steps]
      rcases old request among with here | ⟨new, _⟩
      · exact waiting request here asked
      · omega
    · have left := tracks.oneDue_iff.1 (may.2 check queue registered) request among
      omega
  intro wake among asked
  cases event with
  | add | del =>
    obtain ⟨_, _, done⟩ := bind_iff.1 moved
    cases done
    exact punctual.woken wake among asked
  | check =>
    cases moved
    rcases mem_append.1 among with old | new
    · exact punctual.woken wake old asked
    -- the head has reached its deadline with the step
    cases registered : w.waitQueues i with
    | none => simp [Watch.wakes, ipcCheckWaitqueues, registered] at new
    | some queue =>
      obtain ⟨agenda, tracks⟩ := inv i queue registered
      obtain ⟨queued, now, due⟩ := tracks.wakes_due registered wake new
      have ahead := tracks.waiting_iff.1 (punctual.waiting queue registered) wake.request queued asked
      omega

theorem timer_expiry_iff {w : Watch} (reached : Reachable Start step Allowed w) (i : Nat) :
    (∀ queue, w.waitQueues i = some queue ->
      ((∀ after, (ipcCheckWaitqueues w.waitQueues).2 i = some after -> ∀ left ∈ sums 0 after, 0 < left.toInt) ↔
        OneDue queue)) ∧
      (Reachable Start step (AllowedOneDue i) w -> Punctual w i) := by
  constructor
  · intro queue registered
    obtain ⟨agenda, tracks⟩ := reachable_inv (fun _ _ may => may) reached i queue registered
    have after : (ipcCheckWaitqueues w.waitQueues).2 i = some (checkWaitqueue queue).2 := by
      simp [ipcCheckWaitqueues, registered]
    have sums := sums_stored fun request among =>
      tracks.nearNext request ((expire_sublist (w.steps + 1) agenda).subset among)
    have positive (left : List Long) : (∀ ticks ∈ left, 0 < ticks.toInt) ↔ ∀ ticks ∈ left.map BitVec.toInt, 0 < ticks :=
      List.forall_mem_map.symm
    simp only [tracks.oneDue_iff, after, Option.some.injEq, forall_eq', tracks.checked]
    rw [positive, sums, List.forall_mem_map]
    simp only [sub_pos]
  · intro oneDue
    have both := oneDue.invariant (fun _ start => And.intro start.inv (start.punctual i))
      fun w event next before may moved => ⟨step_inv w event next before.1 may.1 moved,
        step_punctual w event next before.1 before.2 may moved⟩
    exact both.2

def AllowedBoth (w : Watch) (event : Event) : Prop := AllowedOneDue 0 w event ∧ AllowedClose w event

theorem allowed_add {p : Nat} {ticks : Long} (here : w.waitQueues 0 = some queue)
    (elsewhere : ∀ j, w.waitQueues (j + 1) = none) (lasting : 0 ≤ ticks.toInt) (real : p ≠ 0)
    (fresh : p ∉ queue.map Prod.fst) : Allowed w (.add 0 p ticks) := by
  refine ⟨lasting, real, fun j other found => ?_⟩
  cases j with
  | zero =>
    cases here.symm.trans found
    exact fresh
  | succ j => cases (elsewhere j).symm.trans found

theorem both_add {p : Nat} {ticks : Long} (may : Allowed w (.add 0 p ticks)) (here : w.waitQueues 0 = some queue)
    (close : ∀ first ∈ queue.head?, ticks.toInt < first.2.toInt + 2 ^ 63) : AllowedBoth w (.add 0 p ticks) := by
  refine ⟨⟨may, fun check => by cases check⟩, may, fun other found => ?_⟩
  cases here.symm.trans found
  exact close

def oneAsleep : Watch := (step idle (.add 0 7 3)).getD idle
def twoAsleep : Watch := (step oneAsleep (.add 0 8 1)).getD idle
def oneWoken : Watch := (step twoAsleep .check).getD idle
def sleepers : Watch := (step oneWoken (.add 0 9 2)).getD idle

theorem sleepers_reached : Reachable Start step AllowedBoth sleepers := by
  have first : AllowedBoth idle (.add 0 7 3) :=
    both_add (allowed_add rfl (fun _ => rfl) (by decide) (by decide) (by decide)) rfl (by decide)
  have second : AllowedBoth oneAsleep (.add 0 8 1) :=
    both_add (allowed_add rfl (fun _ => rfl) (by decide) (by decide) (by decide)) rfl (by decide)
  have check : AllowedBoth twoAsleep .check := by
    have inTime : Allowed twoAsleep .check := Nat.lt_of_sub_pos (by decide)
    refine ⟨⟨inTime, fun _ queue found => ?_⟩, inTime⟩
    cases found
    rw [OneDue]
    decide
  have third : AllowedBoth oneWoken (.add 0 9 2) :=
    both_add (allowed_add rfl (fun _ => rfl) (by decide) (by decide) (by decide)) rfl (by decide)
  exact .next (.next (.next (.next (.start idle_start) first rfl) second rfl) check rfl) third rfl

theorem sleep_queue_deltas_sleepers :
    sleepers.waitQueues 0 = some [(7, 2), (9, 0)] ∧ (sleepers.woken 0).map Wake.step = [1] ∧
      (∀ entry ∈ [(9, (0 : Long))], 0 ≤ entry.2.toInt) ∧
      (sums 0 [(7, (2 : Long)), (9, 0)]).map BitVec.toInt = [(7, (2 : Long)), (9, 0)].map fun entry =>
        (sleepers.asked entry.1).ticks.toInt - ((sleepers.steps : Int) - (sleepers.asked entry.1).since) := by
  have reached := sleepers_reached.mono fun _ _ may => may.1.1
  have deltas := sleep_queue_deltas reached (i := 0) rfl
  exact ⟨rfl, rfl, deltas.2.1 (sleepers_reached.mono fun _ _ may => may.2), deltas.1⟩

theorem timer_expiry_iff_sleepers :
    Punctual sleepers 0 ∧ (sleepers.woken 0).map Wake.step = [1] ∧ sleepers.waitQueues 0 = some [(7, 2), (9, 0)] ∧
      ((∀ after, (ipcCheckWaitqueues sleepers.waitQueues).2 0 = some after -> ∀ left ∈ sums 0 after, 0 < left.toInt) ↔
        OneDue [(7, 2), (9, 0)]) := by
  have expiry := timer_expiry_iff (sleepers_reached.mono fun _ _ may => may.1.1) 0
  exact ⟨expiry.2 (sleepers_reached.mono fun _ _ may => may.1), rfl, rfl, expiry.1 _ rfl⟩

def alike : Watch := ([.add 0 7 1, .add 0 8 1, .add 0 9 1].foldlM step idle).getD idle
def overdue : Watch := ([.check, .check].foldlM step alike).getD idle
def latest : Watch := (step overdue (.add 0 6 0x7fffffffffffffff)).getD idle

theorem alike_reached : Reachable Start step Allowed alike := by
  have first : Allowed idle (.add 0 7 1) :=
    allowed_add rfl (fun _ => rfl) (by decide) (by decide) (by decide)
  have second : Allowed ((step idle (.add 0 7 1)).getD idle) (.add 0 8 1) :=
    allowed_add rfl (fun _ => rfl) (by decide) (by decide) (by decide)
  have third : Allowed (([.add 0 7 1, .add 0 8 1].foldlM step idle).getD idle) (.add 0 9 1) :=
    allowed_add rfl (fun _ => rfl) (by decide) (by decide) (by decide)
  exact .next (.next (.next (.start idle_start) first rfl) second rfl) third rfl

theorem second_task_stays :
    Reachable Start step Allowed alike ∧ alike.waitQueues 0 = some [(7, 1), (8, 0), (9, 0)] ∧
      (ipcCheckWaitqueues alike.waitQueues).1 0 = some 7 ∧
      (ipcCheckWaitqueues alike.waitQueues).2 0 = some [(8, 0), (9, 0)] ∧ sums 0 [(8, (0 : Long)), (9, 0)] = [0, 0] :=
  ⟨alike_reached, rfl, rfl, rfl, rfl⟩

-- The third of three equal deadlines is overdue, and the longest request behind it wraps.
theorem delta_wraps :
    Reachable Start step Allowed latest ∧ overdue.waitQueues 0 = some [(9, -1)] ∧
      latest.waitQueues 0 = some [(9, -1), (6, 0x8000000000000000)] ∧ (0x8000000000000000 : Long).toInt = -2 ^ 63 := by
  have check : Allowed alike .check := Nat.lt_of_sub_pos (by decide)
  have again : Allowed ((step alike .check).getD idle) .check := Nat.lt_of_sub_pos (by decide)
  have last : Allowed overdue (.add 0 6 0x7fffffffffffffff) :=
    allowed_add rfl (fun _ => rfl) (by decide) (by decide) (by decide)
  exact ⟨.next (.next (.next alike_reached check rfl) again rfl) last rfl, rfl, rfl, by decide⟩

theorem delLoop_addLoop {p : Nat} {queue : Queue} (absent : p ∉ queue.map Prod.fst) (ticks cumTicks : Long) :
    delLoop p (addLoop p ticks cumTicks queue) = (true, queue) := by
  induction queue generalizing cumTicks with
  | nil => simp [addLoop, delLoop, unlink]
  | cons entry rest ih =>
    rw [map_cons, mem_cons, not_or] at absent
    simp only [addLoop]
    split_ifs
    · simp [delLoop, unlink]
    · simp [delLoop, absent.1, ih absent.2]

theorem del_undoes_add (p : Nat) (ticks : Long) (queue : Queue) (real : p ≠ 0) (absent : p ∉ queue.map Prod.fst) :
    delFromMe p (addToMe p ticks queue) = (true, queue) := by
  rw [delFromMe, if_neg real]
  cases queue with
  | nil => simp [addToMe, delLoop, unlink]
  | cons => exact delLoop_addLoop absent ticks 0

theorem del_undoes_add_between : delFromMe 7 (addToMe 7 5 [(8, 3), (9, 4)]) = (true, [(8, 3), (9, 4)]) :=
  del_undoes_add 7 5 _ (by decide) (by decide)

end JinyKernel.WaitQueue
