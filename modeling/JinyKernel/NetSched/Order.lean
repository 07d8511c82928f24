import JinyKernel.Fifo.Run
import JinyKernel.NetSched.Posting

namespace JinyKernel.NetSched

open List Option Run Memory Function

open Fifo (Item Tracked)
open Virtio (Mbuf VringQueue)

-- What came from one queue, in the order in which the queues were served.
section

variable {Source Item : Type} [DecidableEq Source]

def own (source : Source) (merged : List (Source × Item)) : List Item :=
  (merged.filter fun entry => entry.1 = source).map Prod.snd

@[simp]
theorem own_nil (source : Source) : own source ([] : List (Source × Item)) = [] := rfl

theorem own_append (source : Source) (front back : List (Source × Item)) :
    own source (front ++ back) = own source front ++ own source back := by
  rw [own, filter_append, map_append]
  rfl

theorem own_tagged (source tag : Source) (items : List Item) :
    own source (items.map fun item => (tag, item)) = if tag = source then items else [] := by
  induction items with
  | nil => simp [own]
  | cons item rest ih =>
    rw [map_cons, ← singleton_append, own_append, ih]
    by_cases same : tag = source <;> simp [own, same]

theorem mem_own {source : Source} {item : Item} {merged : List (Source × Item)} :
    item ∈ own source merged ↔ (source, item) ∈ merged := by
  simp [own]

end

def mbufOf (item : Item) : Mbuf := { buf := item.buf, len := item.entry.len }

def Carries (sched : Sched) (items : Nat -> List Item) : Prop :=
  ∀ cpu < sched.maxcpus, Tracked (sched.sendQueues cpu) (items cpu)

theorem queues_update {holds : Fifo.FifoQueue -> List Item -> Prop} {sched sched' : Sched} {items : Nat -> List Item}
    {cpu : Nat} {queue : Fifo.FifoQueue} {list : List Item}
    (carries : ∀ cpu < sched.maxcpus, holds (sched.sendQueues cpu) (items cpu)) (held : holds queue list)
    (queues : sched'.sendQueues = update sched.sendQueues cpu queue) (cpus : sched'.maxcpus = sched.maxcpus) :
    ∀ other < sched'.maxcpus, holds (sched'.sendQueues other) (update items cpu list other) := by
  intro other inside
  rw [queues]
  by_cases here : other = cpu
  · subst here
    simpa using held
  · simpa [here] using carries other (inside.trans_eq cpus)

structure Gathered (sched sched' : Sched) (pkts pkts' : Nat) (items items' : Nat -> List Item)
    (moved : List (Nat × Item)) :
    Prop where
  same : sched' = { sched with
    sendQueues := sched'.sendQueues
    sendqsEmpty := sched'.sendqsEmpty
    driver := { sched.driver with sendMbufList := sched'.driver.sendMbufList } }
  carries : Carries sched' items'
  count : pkts' = pkts + moved.length
  within : pkts' ≤ maxBufListSize
  list : window sched'.driver.sendMbufList 0 pkts' =
    window sched.driver.sendMbufList 0 pkts ++ moved.map fun entry => mbufOf entry.2
  order : ∀ cpu, items cpu = own cpu moved ++ items' cpu

section

variable {sched middle sched' : Sched} {pkts pkts' pkts'' cpu : Nat} {items items' items'' : Nat -> List Item}
  {moved later : List (Nat × Item)}

theorem Gathered.refl (carries : Carries sched items) (within : pkts ≤ maxBufListSize) :
    Gathered sched sched pkts pkts items items [] :=
  ⟨rfl, carries, rfl, within, by simp, fun _ => rfl⟩

theorem Gathered.flag (carries : Carries sched items) (within : pkts ≤ maxBufListSize) (empty : Bool) :
    Gathered sched { sched with sendqsEmpty := empty } pkts pkts items items [] :=
  ⟨rfl, carries, rfl, within, by simp, fun _ => rfl⟩

theorem Gathered.trans (front : Gathered sched middle pkts pkts' items items' moved)
    (back : Gathered middle sched' pkts' pkts'' items' items'' later) :
    Gathered sched sched' pkts pkts'' items items'' (moved ++ later) where
  same := by
    rw [back.same, front.same]
  __ := back
  count := by
    rw [back.count, front.count, length_append, Nat.add_assoc]
  list := by
    rw [back.list, front.list, List.map_append, append_assoc]
  order cpu := by
    rw [front.order, back.order, own_append, append_assoc]

theorem isEmpty_eq {queue : Fifo.FifoQueue} {list : List Item} (tracked : Tracked queue list) :
    isEmpty queue = some list.isEmpty := by
  rw [isEmpty, Fifo.entry_inside tracked.ring.inside]
  cases list with
  | nil => simp [tracked.empty]
  | cons item rest => simp [tracked.first, Fifo.Item.entry, (tracked.valid item mem_cons_self).buf]

theorem removeInto_gathered (carries : Carries sched items) (inside : cpu < sched.maxcpus)
    (within : pkts ≤ maxBufListSize) :
    ∃ pkts' sched' items' moved, removeInto sched cpu pkts = some (pkts', sched') ∧
      Gathered sched sched' pkts pkts' items items' moved := by
  obtain ⟨queue, ran, tracked, -⟩ := (carries cpu inside).bulkRemove (maxBufListSize - pkts)
  have fits : ((items cpu).take (maxBufListSize - pkts)).length ≤ maxBufListSize - pkts := length_take_le ..
  refine ⟨_, _, update items cpu ((items cpu).drop (maxBufListSize - pkts)),
    ((items cpu).take (maxBufListSize - pkts)).map fun item => (cpu, item), by rw [removeInto, ran]; rfl,
    rfl, ?_, ?_, ?_, ?_, fun other => ?_⟩
  · exact queues_update carries tracked rfl rfl
  · simp
  · rw [List.length_map]
    omega
  · simp only [List.length_map, List.map_map]
    rw [window_add, window_store_apart (.inl (by omega)), Nat.zero_add, window_store (by simp)]
    rfl
  rw [own_tagged]
  by_cases here : cpu = other
  · subst here
    simp
  · simp [here, Ne.symm here]

theorem nextCpu_lt (inside : cpu < sched.maxcpus) : nextCpu sched.maxcpus cpu < sched.maxcpus := by
  rw [nextCpu]
  split <;> omega

theorem scanLoop_gathered {left : Nat} (carries : Carries sched items) (inside : cpu < sched.maxcpus)
    (within : pkts ≤ maxBufListSize) :
    ∃ cpu' pkts' sched' items' moved, scanLoop left cpu pkts sched = some (cpu', pkts', sched') ∧ cpu' < sched.maxcpus ∧
      Gathered sched sched' pkts pkts' items items' moved := by
  induction left generalizing cpu pkts sched items with
  | zero => exact ⟨cpu, pkts, sched, items, [], rfl, inside, .refl carries within⟩
  | succ left ih =>
    have next := nextCpu_lt inside
    rw [scanLoop, isEmpty_eq (carries _ next)]
    simp only [bind_eq_bind, bind_some]
    split
    next => exact ih carries next within
    obtain ⟨pkts', middle, items', moved, ran, gathered⟩ := removeInto_gathered carries next within
    simp only [ran, bind_some]
    split
    next => exact ⟨_, _, _, items', moved, rfl, next, gathered⟩
    have cpus : middle.maxcpus = sched.maxcpus := by rw [gathered.same]
    obtain ⟨cpu', pkts'', sched', items'', later, ran', last, rest⟩ :=
      ih gathered.carries (next.trans_eq cpus.symm) gathered.within
    exact ⟨cpu', pkts'', sched', items'', moved ++ later, ran', last.trans_eq cpus, gathered.trans rest⟩

structure Refilled (sched sched' : Sched) (items items' : Nat -> List Item) (moved : List (Nat × Item)) : Prop where
  carries : Carries sched' items'
  maxcpus : sched'.maxcpus = sched.maxcpus
  lastQ : sched'.lastQ < sched.maxcpus
  fits : Fits sched'.driver
  sends : sched'.driver.sends = sched.driver.sends
  posted : sched'.driver.posted = sched.driver.posted
  waiting : sched'.driver.waiting = moved.map fun entry => mbufOf entry.2
  order : ∀ cpu, items cpu = own cpu moved ++ items' cpu

theorem Gathered.refilled (gathered : Gathered sched sched' 0 pkts items items' moved)
    (inside : sched.lastQ < sched.maxcpus)
    (fits : Fits sched.driver) (unsent : sched.driver.sendMbufLen = 0) (last : cpu < sched.maxcpus) :
    Refilled sched (if pkts > 0 then { sched' with
        driver := { sched'.driver with sendMbufLen := pkts }, lastQ := cpu, sendqsEmpty := false } else sched')
      items items' moved := by
  have driver := congrArg Sched.driver gathered.same
  have start : sched'.driver.sendMbufStart = 0 := (congrArg Driver.sendMbufStart driver).trans (fits.fresh unsent)
  have length : sched'.driver.sendMbufLen = 0 := (congrArg Driver.sendMbufLen driver).trans unsent
  have sends : sched'.driver.sends = sched.driver.sends := by rw [driver]
  have posted : sched'.driver.posted = sched.driver.posted := by rw [driver]
  have cpus : sched'.maxcpus = sched.maxcpus := by rw [gathered.same]
  have list : window sched'.driver.sendMbufList 0 pkts = moved.map fun entry => mbufOf entry.2 := gathered.list
  split
  next =>
    refine ⟨gathered.carries, cpus, last, ⟨?_, fun _ => start⟩, sends, posted, ?_, gathered.order⟩
    · rw [start, Nat.zero_add]
      exact gathered.within
    · rw [← list, Driver.waiting, start]
  next zero =>
    have nothing : pkts = 0 := Nat.eq_zero_of_not_pos zero
    refine ⟨gathered.carries, cpus, ?_, ⟨?_, fun _ => start⟩, sends, posted, ?_, gathered.order⟩
    · rw [gathered.same]
      exact inside
    · rw [start, length]
      exact Nat.zero_le _
    · rw [← list, Driver.waiting, start, length, nothing]

theorem sendqRemove_refilled (carries : Carries sched items) (inside : sched.lastQ < sched.maxcpus)
    (fits : Fits sched.driver)
    (unsent : sched.driver.sendMbufLen = 0) :
    ∃ ret sched' items' moved, sendqRemove sched = some (ret, sched') ∧ Refilled sched sched' items items' moved := by
  rw [sendqRemove]
  split
  next => exact ⟨false, sched, items, [], rfl, carries, rfl, inside, fits, rfl, rfl,
    by simp [Driver.waiting, unsent, window], fun _ => rfl⟩
  obtain ⟨cpu, pkts, middle, items', moved, ran, last, gathered⟩ :=
    @scanLoop_gathered sched 0 sched.lastQ items sched.maxcpus carries inside (Nat.zero_le _)
  simp only [ran, bind_eq_bind, bind_some, secondPass]
  split
  next full =>
    have refilled := gathered.refilled inside fits unsent last
    simp only [bind_some]
    rw [if_pos (Nat.zero_lt_of_lt full)] at refilled ⊢
    exact ⟨_, _, _, _, rfl, refilled⟩
  next =>
    -- the second pass goes on from the state with the flag
    have raised : Gathered sched (if pkts = 0 then { middle with sendqsEmpty := true } else middle) 0 pkts items
        items' moved := by
      split
      next => simpa using gathered.trans (.flag gathered.carries gathered.within true)
      next => exact gathered
    generalize (if pkts = 0 then { middle with sendqsEmpty := true } else middle) = base at raised ⊢
    have cpus : base.maxcpus = sched.maxcpus := by rw [raised.same]
    have from_ : middle.lastQ < base.maxcpus := by
      rw [gathered.same, cpus]
      exact inside
    obtain ⟨cpu', pkts', last', items'', later, ran', inside', rest⟩ :=
      @scanLoop_gathered base pkts middle.lastQ items' middle.maxcpus raised.carries from_ raised.within
    have refilled := (raised.trans rest).refilled inside fits unsent (inside'.trans_eq cpus)
    simp only [ran', bind_some]
    split
    next sent =>
      rw [if_pos sent] at refilled
      exact ⟨_, _, _, _, rfl, refilled⟩
    next zero =>
      rw [if_neg zero] at refilled
      exact ⟨_, _, _, _, rfl, refilled⟩

end

-- Accepted for a CPU: the frames posted, then those in the list, then those in its queue.
structure Sending (sched : Sched) (accepted : Nat -> List Item) (order pending : List (Nat × Item))
    (items : Nat -> List Item) : Prop where
  carries : Carries sched items
  lastQ : sched.lastQ < sched.maxcpus
  fits : Fits sched.driver
  posted : sched.driver.posted = order.map fun entry => frame (mbufOf entry.2)
  waiting : sched.driver.waiting = pending.map fun entry => mbufOf entry.2
  split : ∀ cpu, accepted cpu = own cpu order ++ own cpu pending ++ items cpu
  sendable : ∀ cpu, ∀ item ∈ accepted cpu, Sendable (mbufOf item)

section

variable {sched : Sched} {accepted items : Nat -> List Item} {order pending : List (Nat × Item)}

variable (sending : Sending sched accepted order pending items)

include sending

theorem Sending.burst (usable : ∀ vq ∈ sched.driver.sends, Usable vq) :
    ∃ n sched', sched.burst = some (n, sched') ∧
      Sending sched' accepted (order ++ pending.take n) (pending.drop n) items ∧ sched'.maxcpus = sched.maxcpus := by
  have sendable : ∀ mbuf ∈ sched.driver.waiting, Sendable mbuf := by
    intro mbuf among
    rw [sending.waiting, List.mem_map] at among
    obtain ⟨⟨cpu, item⟩, inside, rfl⟩ := among
    refine sending.sendable cpu item ?_
    rw [sending.split]
    exact mem_append_left _ (mem_append_right _ (mem_own.2 inside))
  obtain ⟨n, driver, ran, fits, posted, waiting⟩ := burstSend_posts sending.fits usable sendable
  refine ⟨n, { sched with driver := driver }, by rw [Sched.burst, ran]; rfl, ?_, rfl⟩
  refine ⟨sending.carries, sending.lastQ, fits, ?_, ?_, fun cpu => ?_, sending.sendable⟩
  · rw [posted, sending.posted, sending.waiting, List.map_append, ← List.map_take, List.map_map]
    rfl
  · rw [waiting, sending.waiting, map_drop]
  · rw [sending.split, ← own_append, ← own_append, append_assoc, take_append_drop]

theorem Sending.bulkRemove (usable : ∀ vq ∈ sched.driver.sends, Usable vq) :
    ∃ n sched' order' pending' items', bulkRemoveFromSendQueue sched = some (n, sched') ∧
      Sending sched' accepted order' pending' items' ∧ sched'.maxcpus = sched.maxcpus := by
  rw [bulkRemoveFromSendQueue]
  split
  next => exact ⟨0, sched, order, pending, items, rfl, sending, rfl⟩
  split
  next =>
    obtain ⟨n, sched', ran, after, cpus⟩ := sending.burst usable
    exact ⟨n, sched', _, _, _, ran, after, cpus⟩
  next zero =>
    obtain ⟨ret, middle, items', moved, ran, refilled⟩ :=
      sendqRemove_refilled sending.carries sending.lastQ sending.fits (not_not.1 zero)
    have empty : pending = [] := by
      have nothing := sending.waiting
      rw [Driver.waiting, not_not.1 zero] at nothing
      exact map_eq_nil_iff.1 nothing.symm
    have sending' : Sending middle accepted order moved items' := by
      refine ⟨refilled.carries, refilled.lastQ.trans_eq refilled.maxcpus.symm, refilled.fits,
        refilled.posted.trans sending.posted, refilled.waiting, fun cpu => ?_, sending.sendable⟩
      rw [sending.split, empty, refilled.order, own_nil, append_nil, append_assoc]
    simp only [ran, some_bind]
    split
    next =>
      obtain ⟨n, sched', ran', after, cpus⟩ := sending'.burst (by rw [refilled.sends]; exact usable)
      exact ⟨n, sched', _, _, _, ran', after, cpus.trans refilled.maxcpus⟩
    next => exact ⟨0, middle, _, _, _, rfl, sending', refilled.maxcpus⟩

theorem Sending.add {cpu : Nat} {item : Item}
    (inside : cpu < sched.maxcpus) (low : -2 ^ 31 ≤ item.len) (high : item.len < 2 ^ 31)
    (sendable : item.buf ≠ 0 -> Sendable (mbufOf item)) :
    ∃ ret sched' items', sendqAdd sched cpu item.buf item.len item.flags = some (ret, sched') ∧
      Sending sched' (if ret then update accepted cpu (accepted cpu ++ [item]) else accepted) order pending items' ∧
      sched'.maxcpus = sched.maxcpus := by
  rcases (sending.carries cpu inside).offer low high with refused | ⟨valid, added, tracked⟩
  · exact ⟨false, sched, items, by simp [sendqAdd, refused], sending, rfl⟩
  have lowered : sendqAdd sched cpu item.buf item.len item.flags = some (true, { sched with
      sendQueues := update sched.sendQueues cpu ((sched.sendQueues cpu).produce item.entry)
      sendqsEmpty := false }) := by
    rw [sendqAdd, added]
    cases sched.sendqsEmpty <;> simp
  refine ⟨true, _, update items cpu (items cpu ++ [item]), lowered,
    { sending with carries := ?_, split := fun other => ?_, sendable := ?_ }, rfl⟩
  · exact queues_update sending.carries tracked rfl rfl
  · by_cases here : other = cpu
    · subst here
      simp [sending.split]
    · simpa [here] using sending.split other
  intro other frame among
  by_cases here : other = cpu
  · subst here
    simp only [if_true, update_self, mem_append, mem_singleton] at among
    rcases among with old | rfl
    · exact sending.sendable other frame old
    · exact sendable valid.buf
  · simp only [if_true, update_of_ne here] at among
    exact sending.sendable other frame among

end

inductive Event where
  | add (cpu : Nat) (item : Item)
  | send (sends : List VringQueue)

def step (state : Sched × (Nat -> List Item)) : Event -> Option (Sched × (Nat -> List Item))
  | .add cpu item => do
      let (ret, sched) ← sendqAdd state.1 cpu item.buf item.len item.flags
      some (sched, if ret then update state.2 cpu (state.2 cpu ++ [item]) else state.2)
  | .send sends => do
      let (_, sched) ← bulkRemoveFromSendQueue { state.1 with driver := { state.1.driver with sends := sends } }
      some (sched, state.2)

def Allowed (state : Sched × (Nat -> List Item)) : Event -> Prop
  | .add cpu item => cpu < state.1.maxcpus ∧ -2 ^ 31 ≤ item.len ∧ item.len < 2 ^ 31 ∧
    (item.buf ≠ 0 -> Sendable (mbufOf item))
  | .send sends => ∀ vq ∈ sends, Usable vq

def Start (maxcpus : Nat) (length : Int) (state : Sched × (Nat -> List Item)) : Prop :=
  ∃ list, state = ({
    maxcpus := maxcpus
    sendQueues _ := Fifo.init length
    driver := { sendMbufList := list, sends := [] } }, fun _ => [])

-- A queue without entries accepts nothing.
structure Idle (length : Int) (state : Sched × (Nat -> List Item)) : Prop where
  queues : state.1.sendQueues = fun _ => Fifo.init length
  empty : state.1.sendqsEmpty = true
  nothing : state.1.driver.sendMbufLen = 0
  posted : state.1.driver.posted = []
  accepted : state.2 = fun _ => []

section

variable {length : Int} {state next : Sched × (Nat -> List Item)} {event : Event}

theorem Idle.step (idle : Idle length state) (absent : length ≤ 0) (moved : step state event = some next) :
    Idle length next := by
  cases event with
  | add cpu item =>
    rw [NetSched.step, sendqAdd, idle.queues, Fifo.addToQueue] at moved
    split at moved
    next =>
      have kept : update (fun _ => Fifo.init length) cpu (Fifo.init length) = fun _ : Nat => Fifo.init length :=
        update_eq_self ..
      simp only [some_bind, kept, Bool.false_eq_true, and_false, if_false, some.injEq] at moved
      subst moved
      exact { idle with queues := rfl }
    next =>
      have outside : (Fifo.init length).entry (Fifo.init length).producer.index = none := if_neg (Int.not_lt.2 absent)
      rw [outside] at moved
      cases moved
  | send sends =>
    rw [NetSched.step, bulkRemoveFromSendQueue, if_pos ⟨idle.empty, idle.nothing⟩] at moved
    cases moved
    exact { idle with }

theorem Sending.step {order pending : List (Nat × Item)} {items : Nat -> List Item}
    (sending : Sending state.1 state.2 order pending items) (allowed : Allowed state event) :
    ∃ next order' pending' items', step state event = some next ∧ Sending next.1 next.2 order' pending' items' ∧
      next.1.maxcpus = state.1.maxcpus := by
  cases event with
  | add cpu item =>
    obtain ⟨inside, low, high, sendable⟩ := allowed
    obtain ⟨ret, sched, items', ran, after⟩ := sending.add inside low high sendable
    exact ⟨_, order, pending, items', by rw [NetSched.step, ran]; rfl, after⟩
  | send sends =>
    have found : Sending { state.1 with driver := { state.1.driver with sends := sends } } state.2 order pending items :=
      { sending with fits := ⟨sending.fits.inside, sending.fits.fresh⟩ }
    obtain ⟨n, sched, order', pending', items', ran, after⟩ := found.bulkRemove allowed
    exact ⟨_, order', pending', items', by rw [NetSched.step, ran]; rfl, after⟩

end

def Reaches (maxcpus : Nat) (length : Int) : Sched × (Nat -> List Item) -> Prop :=
  Reachable (Start maxcpus length) step Allowed

variable {maxcpus : Nat} {length : Int} {state : Sched × (Nat -> List Item)}

theorem Start.sending (cpus : 0 < maxcpus) (positive : 0 < length) (small : length < 2 ^ 31)
    (start : Start maxcpus length state) : Sending state.1 state.2 [] [] fun _ => [] := by
  obtain ⟨list, rfl⟩ := start
  exact ⟨fun _ _ => Fifo.init_tracked positive small, cpus, ⟨Nat.zero_le _, fun _ => rfl⟩, rfl, rfl, fun _ => rfl,
    fun _ _ absent => by cases absent⟩

def Sound (maxcpus : Nat) (state : Sched × (Nat -> List Item)) : Prop :=
  state.1.maxcpus = maxcpus ∧ ∃ order pending items, Sending state.1 state.2 order pending items

theorem Reaches.sound (reached : Reaches maxcpus length state) (cpus : 0 < maxcpus) (positive : 0 < length)
    (small : length < 2 ^ 31) : Sound maxcpus state ∧ ∀ event, Allowed state event -> (step state event).isSome := by
  refine Reachable.progress ?_ ?_ reached
  · intro state start
    refine ⟨?_, [], [], _, start.sending cpus positive small⟩
    obtain ⟨list, rfl⟩ := start
    rfl
  · rintro state event ⟨same, order, pending, items, sending⟩ allowed
    obtain ⟨next, order', pending', items', moved, after, kept⟩ := sending.step allowed
    exact ⟨next, moved, kept.trans same, order', pending', items', after⟩

theorem Reaches.idle (reached : Reaches maxcpus length state) (absent : length ≤ 0) : Idle length state := by
  refine Reachable.invariant ?_ (fun state event next idle _ => idle.step absent) reached
  rintro state ⟨list, rfl⟩
  exact ⟨rfl, rfl, rfl, rfl, rfl⟩

theorem frames_posted_in_order (maxcpus : Nat) (cpus : 0 < maxcpus) (length : Int) (small : length < 2 ^ 31)
    (sched : Sched) (accepted : Nat -> List Item) (reached : Reaches maxcpus length (sched, accepted)) :
    (∃ order pending : List (Nat × Item), sched.driver.posted = order.map (fun entry => frame (mbufOf entry.2)) ∧
      sched.driver.waiting = pending.map (fun entry => mbufOf entry.2) ∧
      ∀ cpu < maxcpus, ∃ items, accepted cpu = own cpu order ++ own cpu pending ++ items ∧
        Fifo.queueSize (sched.sendQueues cpu) = items.length) ∧
    (0 < length -> ∀ event, Allowed (sched, accepted) event -> (step (sched, accepted) event).isSome) := by
  by_cases positive : 0 < length
  · obtain ⟨⟨same, order, pending, items, sending⟩, progress⟩ := reached.sound cpus positive small
    refine ⟨⟨order, pending, sending.posted, sending.waiting, fun cpu inside => ?_⟩, fun _ => progress⟩
    exact ⟨items cpu, sending.split cpu, (sending.carries cpu (inside.trans_eq same.symm)).queueSize_eq⟩
  have idle := reached.idle (Int.not_lt.1 positive)
  refine ⟨⟨[], [], idle.posted, ?_, fun cpu _ => ⟨[], congrFun idle.accepted cpu, ?_⟩⟩,
    fun positive' => absurd positive' positive⟩
  · rw [Driver.waiting, idle.nothing]
    rfl
  · rw [idle.queues]
    simp [Fifo.queueSize, Fifo.init, wrapSub]

def small : Item := ⟨kaddrspaceStart + 0x10000, 60, 0⟩

def oneCpu : Sched × (Nat -> List Item) where
  fst :=
    { maxcpus := 1
      sendQueues := fun _ => Fifo.init 2
      driver := { sendMbufList := fun _ => { buf := 0, len := 0 }, sends := [] } }
  snd _ := []

theorem frames_posted_in_order_two : ∃ sched accepted, Reaches 1 2 (sched, accepted) ∧
    (accepted 0).length = 2 ∧ sched.driver.posted.length = 1 ∧ ∃ order pending : List (Nat × Item),
      sched.driver.posted = order.map (fun entry => frame (mbufOf entry.2)) ∧
        own 0 order ++ own 0 pending <+: accepted 0 := by
  have outcome : ((step oneCpu (.add 0 small)).bind fun first => if first.1.maxcpus = 1 then
      (step first (.add 0 small)).bind fun second => step second (.send [Virtio.initVirtqueue (2 ^ 1)]) else none).any
        (fun last => (last.2 0).length = 2 ∧ last.1.driver.posted.length = 1) = true := by decide +kernel
  obtain ⟨⟨sched, accepted⟩, ran, both, one⟩ := holds_of_any outcome
  obtain ⟨first, added, ran⟩ := bind_iff.1 ran
  split_ifs at ran with cpus
  obtain ⟨second, again, sent⟩ := bind_iff.1 ran
  have sendable : small.buf ≠ 0 -> Sendable (mbufOf small) := fun _ =>
    ⟨by decide +kernel, by decide +kernel, by decide +kernel⟩
  have mayAdd : Allowed oneCpu (.add 0 small) := ⟨by decide, by decide, by decide, sendable⟩
  have mayAgain : Allowed first (.add 0 small) := ⟨by rw [cpus]; decide, by decide, by decide, sendable⟩
  have maySend : Allowed second (.send [Virtio.initVirtqueue (2 ^ 1)]) := by
    intro vq among
    rw [mem_singleton.1 among]
    exact initVirtqueue_usable (by decide)
  have reached : Reaches 1 2 (sched, accepted) :=
    .next (.next (.next (.start ⟨_, rfl⟩) mayAdd added) mayAgain again) maySend sent
  obtain ⟨⟨order, pending, posted, -, split⟩, -⟩ :=
    frames_posted_in_order 1 (by decide) 2 (by decide) sched accepted reached
  obtain ⟨items, front, -⟩ := split 0 (by decide)
  exact ⟨sched, accepted, reached, both, one, order, pending, posted, items, front.symm⟩

end JinyKernel.NetSched
