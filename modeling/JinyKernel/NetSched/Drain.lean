import JinyKernel.NetSched.Model
import JinyKernel.Virtio.Run

namespace JinyKernel.NetSched

open Relation List Option Run Cursors
open Virtio (Mbuf VringQueue moreUsed)

def Quiet (vq : VringQueue) : Prop := vq.numAdded = 0 ∧ vq.availIdx < 2 ^ 16

def Narrow (vq : VringQueue) : Prop := vq.lastUsedIdx < 2 ^ 16 ∧ vq.usedIdx < 2 ^ 16

structure Steady (sched : Sched) : Prop where
  sends : ∀ vq ∈ sched.driver.sends, Quiet vq
  devices : ∀ vq ∈ sched.devices, Narrow vq

section

variable {vq vq' : VringQueue} {n : Nat}

theorem Quiet.bulkAdd {mbufs : List Mbuf} (quiet : Quiet vq) (few : mbufs.length ≤ maxBufListSize)
    (ran : Virtio.bulkAddToQueue .net vq mbufs true true = some (n, vq')) : Quiet vq' ∧ (posts vq vq').length = n := by
  rw [Virtio.bulkAddToQueue] at ran
  simp only [bind_iff, Prod.exists, some.injEq, Prod.mk.injEq] at ran
  obtain ⟨ret, added, looped, rfl, rfl⟩ := ran
  obtain ⟨le, count, idx, -⟩ := Virtio.addLoop_rings looped
  rw [quiet.1, Nat.zero_add] at count
  have small : ret < 2 ^ 16 := by
    rw [maxBufListSize] at few
    omega
  rw [posts, length_map, length_pending]
  split
  next =>
    refine ⟨⟨rfl, Nat.mod_lt _ (by decide)⟩, ?_⟩
    rw [Virtio.syncAvialIdx, idx, count]
    exact distance_add _ _ quiet.2 small
  next zero =>
    obtain rfl : ret = 0 := by omega
    refine ⟨⟨count, idx.trans_lt quiet.2⟩, ?_⟩
    rw [idx, distance, Nat.add_sub_cancel_left, Nat.mod_self]

theorem burstLoop_counts {driver : Driver} {sends others : List VringQueue} {ret ret' : Nat} {sent : List (Nat × Nat)}
    (quiet : ∀ vq ∈ sends, Quiet vq) (few : driver.sendMbufLen ≤ maxBufListSize)
    (ran : burstLoop driver ret sends = some (ret', others, sent)) :
    (∀ vq ∈ others, Quiet vq) ∧ ret' = ret + sent.length := by
  induction sends generalizing ret others sent with
  | nil =>
    cases ran
    exact ⟨quiet, rfl⟩
  | cons vq rest ih =>
    rw [burstLoop] at ran
    obtain ⟨⟨qret, added⟩, posted, ran⟩ := bind_iff.1 ran
    obtain ⟨quiet', length⟩ := (quiet vq mem_cons_self).bulkAdd (by rw [Memory.length_window]; omega) posted
    have quietRest : ∀ vq ∈ rest, Quiet vq := fun other among => quiet other (mem_cons_of_mem _ among)
    dsimp only at ran
    split at ran
    next =>
      cases ran
      exact ⟨forall_mem_cons.2 ⟨quiet', quietRest⟩, by rw [length]⟩
    obtain ⟨⟨total, queues, later⟩, looped, ran⟩ := bind_iff.1 ran
    cases ran
    obtain ⟨quietLater, count⟩ := ih quietRest looped
    exact ⟨forall_mem_cons.2 ⟨quiet', quietLater⟩, by rw [count, length_append, length, Nat.add_assoc]⟩

theorem reclaim_quiet {sends reclaimed : List VringQueue} (quiet : ∀ vq ∈ sends, Quiet vq)
    (ran : sends.mapM (fun vq => Virtio.bulkRemoveFromQueue vq maxBufListSize) = some reclaimed) :
    ∀ vq ∈ reclaimed, Quiet vq := by
  induction sends generalizing reclaimed with
  | nil =>
    cases ran
    exact quiet
  | cons vq rest ih =>
    rw [mapM_cons] at ran
    obtain ⟨first, removed, ran⟩ := bind_iff.1 ran
    obtain ⟨others, mapped, ran⟩ := bind_iff.1 ran
    cases ran
    obtain ⟨count, idx⟩ := Virtio.bulkRemoveFromQueue_rings removed
    have here := quiet vq mem_cons_self
    exact forall_mem_cons.2 ⟨⟨count.trans here.1, idx.trans_lt here.2⟩,
      ih (fun other among => quiet other (mem_cons_of_mem _ among)) mapped⟩

theorem burstSend_counts {driver driver' : Driver} (quiet : ∀ vq ∈ driver.sends, Quiet vq)
    (ran : burstSend driver = some (n, driver')) :
    (∀ vq ∈ driver'.sends, Quiet vq) ∧ ∃ sent, driver'.posted = driver.posted ++ sent ∧ sent.length = n := by
  rw [burstSend] at ran
  split at ran
  next =>
    cases ran
    exact ⟨quiet, [], (append_nil _).symm, rfl⟩
  split_ifs at ran with fits
  obtain ⟨reclaimed, taken, ran⟩ := bind_iff.1 ran
  obtain ⟨⟨ret, sends, sent⟩, looped, ran⟩ := bind_iff.1 ran
  obtain ⟨quiet', count⟩ := burstLoop_counts (reclaim_quiet quiet taken) (by omega) looped
  rw [Nat.zero_add] at count
  dsimp only at ran
  split_ifs at ran
  all_goals
    cases ran
    exact ⟨quiet', sent, rfl, count.symm⟩

structure Kept (sched sched' : Sched) : Prop where
  sends : sched'.driver.sends = sched.driver.sends
  posted : sched'.driver.posted = sched.driver.posted
  devices : sched'.devices = sched.devices
  received : sched'.received = sched.received

variable {sched middle sched' : Sched}

theorem Kept.trans (front : Kept sched middle) (back : Kept middle sched') : Kept sched sched' :=
  ⟨back.sends.trans front.sends, back.posted.trans front.posted, back.devices.trans front.devices,
    back.received.trans front.received⟩

variable {cpu pkts pkts' : Nat}

theorem removeInto_kept (ran : removeInto sched cpu pkts = some (pkts', sched')) : Kept sched sched' := by
  obtain ⟨taken, -, ran⟩ := bind_iff.1 ran
  cases ran
  exact ⟨rfl, rfl, rfl, rfl⟩

theorem scanLoop_kept {left cpu' : Nat} (ran : scanLoop left cpu pkts sched = some (cpu', pkts', sched')) :
    Kept sched sched' := by
  induction left generalizing cpu pkts sched with
  | zero =>
    cases ran
    exact ⟨rfl, rfl, rfl, rfl⟩
  | succ left ih =>
    rw [scanLoop] at ran
    obtain ⟨empty, -, ran⟩ := bind_iff.1 ran
    split at ran
    next => exact ih ran
    obtain ⟨⟨more, middle⟩, removed, ran⟩ := bind_iff.1 ran
    have kept := removeInto_kept removed
    dsimp only at ran
    split at ran
    next =>
      cases ran
      exact kept
    next => exact kept.trans (ih ran)

theorem secondPass_kept {cpu' : Nat} (ran : secondPass cpu pkts sched = some (cpu', pkts', sched')) :
    Kept sched sched' := by
  rw [secondPass] at ran
  split at ran
  next =>
    cases ran
    exact ⟨rfl, rfl, rfl, rfl⟩
  refine Kept.trans ?_ (scanLoop_kept ran)
  split <;> exact ⟨rfl, rfl, rfl, rfl⟩

theorem sendqRemove_kept {ret : Bool} (ran : sendqRemove sched = some (ret, sched')) : Kept sched sched' := by
  rw [sendqRemove] at ran
  split at ran
  next =>
    cases ran
    exact ⟨rfl, rfl, rfl, rfl⟩
  obtain ⟨⟨cpu, pkts, middle⟩, scanned, ran⟩ := bind_iff.1 ran
  obtain ⟨⟨cpu', pkts', last⟩, again, ran⟩ := bind_iff.1 ran
  refine ((scanLoop_kept scanned).trans (secondPass_kept again)).trans ?_
  dsimp only at ran
  split at ran
  all_goals
    cases ran
    exact ⟨rfl, rfl, rfl, rfl⟩

structure Sent (n : Nat) (sched sched' : Sched) : Prop where
  sends : ∀ vq ∈ sched'.driver.sends, Quiet vq
  posted : ∃ sent, sched'.driver.posted = sched.driver.posted ++ sent ∧ sent.length = n
  devices : sched'.devices = sched.devices
  received : sched'.received = sched.received

theorem Sent.none (quiet : ∀ vq ∈ sched.driver.sends, Quiet vq) (kept : Kept sched sched') : Sent 0 sched sched' :=
  ⟨by rw [kept.sends]; exact quiet, ⟨[], by rw [kept.posted, append_nil], rfl⟩, kept.devices, kept.received⟩

theorem Sent.trans {m : Nat} (front : Sent m sched middle) (back : Sent n middle sched') : Sent (m + n) sched sched' := by
  obtain ⟨sent, posted, length⟩ := front.posted
  obtain ⟨later, posted', length'⟩ := back.posted
  refine ⟨back.sends, ⟨sent ++ later, ?_, ?_⟩, back.devices.trans front.devices, back.received.trans front.received⟩
  · rw [posted', posted, append_assoc]
  · rw [length_append, length, length']

variable (quiet : ∀ vq ∈ sched.driver.sends, Quiet vq)

include quiet

theorem burst_sent (ran : sched.burst = some (n, sched')) : Sent n sched sched' := by
  obtain ⟨⟨ret, driver⟩, sent, ran⟩ := bind_iff.1 ran
  cases ran
  obtain ⟨quiet', posted⟩ := burstSend_counts quiet sent
  exact ⟨quiet', posted, rfl, rfl⟩

theorem bulkRemove_sent (ran : bulkRemoveFromSendQueue sched = some (n, sched')) : Sent n sched sched' := by
  rw [bulkRemoveFromSendQueue] at ran
  split at ran
  next =>
    cases ran
    exact .none quiet ⟨rfl, rfl, rfl, rfl⟩
  split at ran
  next => exact burst_sent quiet ran
  obtain ⟨⟨ret, middle⟩, removed, ran⟩ := bind_iff.1 ran
  have moved : Sent 0 sched middle := .none quiet (sendqRemove_kept removed)
  dsimp only at ran
  split at ran
  next => exact Nat.zero_add n ▸ moved.trans (burst_sent moved.sends ran)
  cases ran
  exact moved

theorem sendLoop_sent {burst : Int} {rounds pktSend total : Nat}
    (ran : sendLoop burst rounds pktSend sched = some (total, sched')) :
    ∃ n, total = pktSend + n ∧ Sent n sched sched' := by
  induction rounds generalizing pktSend sched with
  | zero => cases ran
  | succ rounds ih =>
    rw [sendLoop] at ran
    obtain ⟨⟨pkts, middle⟩, removed, ran⟩ := bind_iff.1 ran
    have front := bulkRemove_sent quiet removed
    dsimp only at ran
    split at ran
    next =>
      obtain ⟨n, rfl, back⟩ := ih front.sends ran
      exact ⟨pkts + n, Nat.add_assoc .., front.trans back⟩
    cases ran
    exact ⟨pkts, rfl, front⟩

theorem netBhSend_sent {burst : Int} {rounds : Nat}
    (ran : netBhSend burst rounds sched = some (n, sched')) : Sent n sched sched' := by
  rw [netBhSend] at ran
  split at ran
  next =>
    cases ran
    exact .none quiet ⟨rfl, rfl, rfl, rfl⟩
  obtain ⟨total, rfl, sent⟩ := sendLoop_sent quiet ran
  rwa [Nat.zero_add]

end

section

variable {vq vq' : VringQueue} {frames : List (Nat × Nat)}

section

variable (narrow : Narrow vq)

include narrow

theorem receiveLoop_narrow {count : Nat} (ran : receiveLoop count vq = some (frames, vq')) :
    frames.length = count ∧ Narrow vq' := by
  induction count generalizing vq frames with
  | zero =>
    cases ran
    exact ⟨rfl, narrow⟩
  | succ count ih =>
    obtain ⟨middle, taken, ran⟩ := bind_iff.1 ran
    obtain ⟨⟨rest, last⟩, looped, ran⟩ := bind_iff.1 ran
    cases ran
    obtain ⟨-, -, used, next⟩ := Virtio.takeUsed_rings taken
    obtain ⟨length, narrow'⟩ := ih ⟨next, used.trans_lt narrow.2⟩ looped
    exact ⟨congrArg (· + 1) length, narrow'⟩

theorem bulkAdd_narrow {mbufs : List Mbuf} {fromList readOnly : Bool}
    (ran : Virtio.bulkAddToQueue .net vq mbufs fromList readOnly = some (n, vq')) : Narrow vq' := by
  obtain ⟨⟨ret, added⟩, looped, ran⟩ := bind_iff.1 ran
  obtain ⟨-, -, -, used, last⟩ := Virtio.addLoop_rings looped
  cases ran
  split <;> exact ⟨last.trans_lt narrow.1, used.trans_lt narrow.2⟩

variable (more : moreUsed vq = true)

include more

theorem Narrow.distance_pos : 0 < distance (2 ^ 16) vq.lastUsedIdx vq.usedIdx := by
  obtain ⟨last, used⟩ := narrow
  rw [moreUsed, bne_iff_ne] at more
  rw [distance]
  omega

theorem Narrow.recvPkts_pos {burst : Int} (positive : 0 < burst) (range : burst < 2 ^ 31) : 0 < recvPkts burst vq := by
  have pending := narrow.distance_pos more
  rw [recvPkts, maxBufListSize]
  split <;> split <;> omega

theorem burstRecv_uncounted {burst : Int} {pages : List Nat} {pkts : Nat} (positive : 0 < burst)
    (range : burst < 2 ^ 31) (ran : burstRecv burst pages vq = some (pkts, frames, vq')) :
    pkts = 0 ∧ frames ≠ [] ∧ Narrow vq' := by
  have took := narrow.recvPkts_pos more positive range
  rw [burstRecv] at ran
  split at ran
  next zero => exact absurd zero took.ne'
  obtain ⟨⟨taken, middle⟩, looped, ran⟩ := bind_iff.1 ran
  obtain ⟨⟨_, filled⟩, added, ran⟩ := bind_iff.1 ran
  cases ran
  obtain ⟨length, narrow'⟩ := receiveLoop_narrow narrow looped
  refine ⟨rfl, ?_, bulkAdd_narrow narrow' added⟩
  rw [← length_pos_iff, length]
  exact took

theorem recvLoop_uncounted {supply : Nat -> List Nat} {burst : Int} {rounds fills ret fills' : Nat}
    (range : burst < 2 ^ 31) (ran : recvLoop supply burst rounds fills 0 vq = some (ret, frames, vq', fills')) :
    ret = 0 ∧ (frames = [] ↔ burst ≤ 0) ∧ Narrow vq' := by
  cases rounds with
  | zero => cases ran
  | succ rounds =>
    rw [recvLoop] at ran
    split at ran
    next positive =>
      obtain ⟨⟨pkts, taken, after⟩, received, ran⟩ := bind_iff.1 ran
      obtain ⟨rfl, took, narrow'⟩ := burstRecv_uncounted narrow more (by simpa using positive) range received
      cases ran
      exact ⟨rfl, iff_of_false took (by simpa using positive), narrow'⟩
    next negative =>
      cases ran
      exact ⟨rfl, iff_of_true rfl (by simpa using negative), narrow⟩

end

theorem devicesLoop_uncounted {supply : Nat -> List Nat} {burst : Int} {rounds fills pkts fills' : Nat}
    {devices others : List VringQueue} (narrow : ∀ vq ∈ devices, Narrow vq) (range : burst < 2 ^ 31)
    (ran : devicesLoop supply burst rounds fills devices = some (pkts, frames, others, fills')) :
    pkts = 0 ∧ (frames = [] ↔ burst ≤ 0 ∨ ∀ vq ∈ devices, moreUsed vq = false) ∧ ∀ vq ∈ others, Narrow vq := by
  induction devices generalizing fills pkts frames others with
  | nil =>
    cases ran
    exact ⟨rfl, by simp, narrow⟩
  | cons vq rest ih =>
    have narrowRest : ∀ vq ∈ rest, Narrow vq := fun other among => narrow other (mem_cons_of_mem _ among)
    rw [devicesLoop] at ran
    split at ran
    next more =>
      obtain ⟨⟨ret, taken, after, mid⟩, here, ran⟩ := bind_iff.1 ran
      obtain ⟨⟨total, later, queues, last⟩, looped, ran⟩ := bind_iff.1 ran
      cases ran
      obtain ⟨rfl, nothing, narrow'⟩ := recvLoop_uncounted (narrow vq mem_cons_self) more range here
      obtain ⟨rfl, nothing', narrowLater⟩ := ih narrowRest looped
      refine ⟨rfl, ?_, forall_mem_cons.2 ⟨narrow', narrowLater⟩⟩
      rw [append_eq_nil_iff, nothing, nothing', forall_mem_cons, more]
      constructor
      · exact fun both => .inl both.1
      · rintro (low | ⟨false, -⟩)
        · exact ⟨low, .inl low⟩
        · cases false
    next idle =>
      obtain ⟨⟨total, later, queues, last⟩, looped, ran⟩ := bind_iff.1 ran
      cases ran
      obtain ⟨rfl, nothing', narrowLater⟩ := ih narrowRest looped
      refine ⟨rfl, ?_, forall_mem_cons.2 ⟨narrow vq mem_cons_self, narrowLater⟩⟩
      have idle : moreUsed vq = false := by simpa using idle
      rw [nothing', forall_mem_cons, idle]
      simp

end

section

variable {conf : Conf} {supply : Nat -> List Nat} {rounds value : Nat} {sched sched' : Sched}

theorem netBhRound_counts (steady : Steady sched) (range : conf.netRecvBurst < 2 ^ 31)
    (ran : netBhRound conf supply rounds sched = some (value, sched')) :
    Steady sched' ∧ (∃ sent, sched'.driver.posted = sched.driver.posted ++ sent ∧ sent.length = value) ∧
      ∃ frames, sched'.received = sched.received ++ frames ∧
        (frames = [] ↔ conf.netRecvBurst ≤ 0 ∨ ∀ vq ∈ sched.devices, moreUsed vq = false) := by
  obtain ⟨⟨n, middle⟩, sending, ran⟩ := bind_iff.1 ran
  obtain ⟨⟨got, last⟩, receiving, ran⟩ := bind_iff.1 ran
  cases ran
  have sent := netBhSend_sent steady.sends sending
  obtain ⟨⟨pkts, frames, devices, fills⟩, looped, receiving⟩ := bind_iff.1 receiving
  cases receiving
  have same := sent.devices
  obtain ⟨rfl, nothing, narrow⟩ := devicesLoop_uncounted (same ▸ steady.devices) range looped
  refine ⟨⟨sent.sends, narrow⟩, sent.posted, frames, ?_, ?_⟩
  · exact congrArg (· ++ frames) sent.received
  · rw [nothing, same]

def Worked (conf : Conf) (supply : Nat -> List Nat) (rounds : Nat) (sched sched' : Sched) : Prop :=
  ∃ value > 0, netBhRound conf supply rounds sched = some (value, sched')

theorem Worked.steady (range : conf.netRecvBurst < 2 ^ 31) (steady : Steady sched)
    (worked : ReflTransGen (Worked conf supply rounds) sched sched') : Steady sched' := by
  induction worked with
  | refl => exact steady
  | tail _ round ih =>
    obtain ⟨value, -, ran⟩ := round
    exact (netBhRound_counts ih range ran).1

theorem netBhLoop_last {limit ret : Nat} (ran : netBhLoop conf supply limit rounds sched = some (ret, sched')) :
    ret = 0 ∧ ∃ last, ReflTransGen (Worked conf supply limit) sched last ∧ netBhRound conf supply limit last =
      some (0, sched') := by
  induction rounds generalizing sched with
  | zero => cases ran
  | succ rounds ih =>
    obtain ⟨⟨value, middle⟩, round, ran⟩ := bind_iff.1 ran
    dsimp only at ran
    split at ran
    next more =>
      obtain ⟨zero, last, worked, final⟩ := ih ran
      exact ⟨zero, last, .head ⟨value, more, round⟩ worked, final⟩
    next zero =>
      cases ran
      obtain rfl := Nat.eq_zero_of_not_pos zero
      exact ⟨rfl, sched, .refl, round⟩

end

theorem net_bh_drained_iff (conf : Conf) (range : conf.netRecvBurst < 2 ^ 31) (supply : Nat -> List Nat)
    (rounds ret : Nat)
    (sched after : Sched) (steady : Steady sched) (outside : sched.inprogress = false)
    (ran : netBh conf supply rounds conf.netbhCpu sched = some (ret, after)) :
    ∃ last final, ReflTransGen (Worked conf supply rounds) { sched with inprogress := true } last ∧
      netBhRound conf supply rounds last = some (0, final) ∧ after = { final with inprogress := false } ∧
      (final.driver.posted = last.driver.posted ∧ final.received = last.received ↔
        conf.netRecvBurst ≤ 0 ∨ ∀ vq ∈ last.devices, moreUsed vq = false) := by
  rw [netBh, if_neg (by simp), if_neg (by simp [outside])] at ran
  obtain ⟨⟨value, final⟩, looped, ran⟩ := bind_iff.1 ran
  cases ran
  obtain ⟨rfl, last, worked, round⟩ := netBhLoop_last looped
  have begun : Steady { sched with inprogress := true } := ⟨steady.sends, steady.devices⟩
  obtain ⟨-, ⟨sent, posted, zero⟩, frames, received, nothing⟩ := netBhRound_counts
    (Worked.steady range begun worked) range round
  refine ⟨last, final, worked, round, rfl, ?_⟩
  rw [posted, length_eq_zero_iff.1 zero, append_nil, received, ← nothing]
  simp

def busyCard : Option VringQueue := do
  let (_, vq) ← Virtio.bulkAddToQueue .net (Virtio.initVirtqueue 4)
    [{ buf := kaddrspaceStart + 0x10000, len := memNetbufSize },
      { buf := kaddrspaceStart + 0x20000, len := memNetbufSize }]
    false false
  some { vq with usedRing := fun i => ⟨2 * i, 60⟩, usedIdx := 2 }

def oneCard (vq : VringQueue) : Sched where
  maxcpus := 1
  sendQueues := fun _ => Fifo.init 256
  driver := { sendMbufList := fun _ => { buf := 0, len := 0 }, sends := [Virtio.initVirtqueue 4] }
  devices := [vq]

theorem busyCard_narrow : ∃ vq, busyCard = some vq ∧ Narrow vq := by
  have outcome : busyCard.any (fun vq => vq.lastUsedIdx < 2 ^ 16 ∧ vq.usedIdx < 2 ^ 16) = true := by decide +kernel
  obtain ⟨vq, made, facts⟩ := holds_of_any outcome
  have narrow := facts
  exact ⟨vq, made, narrow⟩

theorem net_bh_drained_iff_card : ∃ vq ret after last final, busyCard = some vq ∧
    netBh {} (fun _ => []) 2 0 (oneCard vq) = some (ret, after) ∧ netBhRound {} (fun _ => []) 2 last = some (0, final) ∧
    (final.driver.posted = last.driver.posted ∧ final.received = last.received ↔
      (128 : Int) ≤ 0 ∨ ∀ vq ∈ last.devices, moreUsed vq = false) := by
  obtain ⟨vq, made, narrow⟩ := busyCard_narrow
  have outcome : (busyCard.bind fun vq => netBh {} (fun _ => []) 2 0 (oneCard vq)).isSome = true := by decide +kernel
  rw [made, bind_some, isSome_iff_exists] at outcome
  obtain ⟨⟨ret, after⟩, ran⟩ := outcome
  have steady : Steady (oneCard vq) := ⟨by simp [oneCard, Quiet, Virtio.initVirtqueue], by simpa [oneCard] using narrow⟩
  obtain ⟨last, final, -, round, -, drained⟩ :=
    net_bh_drained_iff {} (by decide) (fun _ => []) 2 ret (oneCard vq) after steady rfl ran
  exact ⟨vq, ret, after, last, final, made, ran, round, drained⟩

theorem net_bh_stops_early : ∃ vq after, busyCard = some vq ∧
    netBh { netRecvBurst := 1 } (fun _ => []) 2 0 (oneCard vq) = some (0, after) ∧ after.received.length = 1 ∧
    after.devices.any moreUsed = true := by
  obtain ⟨vq, made, -⟩ := busyCard_narrow
  have outcome : (busyCard.bind fun vq => netBh { netRecvBurst := 1 } (fun _ => []) 2 0 (oneCard vq)).any (fun call =>
      call.1 = 0 ∧ call.2.received.length = 1 ∧ call.2.devices.any moreUsed = true) = true := by decide +kernel
  rw [made, bind_some] at outcome
  obtain ⟨⟨ret, after⟩, ran, zero, one, left⟩ := holds_of_any outcome
  cases zero
  exact ⟨vq, after, made, ran, one, left⟩

end JinyKernel.NetSched
