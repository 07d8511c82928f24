import JinyKernel.NetSched.Model
import JinyKernel.Virtio.Run

namespace JinyKernel.NetSched

open List Option Memory Cursors
open Virtio (Layout Mbuf Part Posted VringQueue)

variable (mbuf : Mbuf)

def frame : Nat × Nat := (wrap (pa (wrapSub mbuf.buf 10) + 10), (mbuf.len % 2 ^ 32).toNat)

def parts : List Part := [⟨false, pa (wrapSub mbuf.buf 10), 10⟩, ⟨false, (frame mbuf).1, (frame mbuf).2⟩]

theorem scatterList_eq : Virtio.scatterList .net true true mbuf = parts mbuf := by
  simp [Virtio.scatterList, parts, frame]

-- Nothing is at the physical address 0, where the driver stops.
structure Sendable : Prop where
  buf : mbuf.buf ≠ 0
  header : pa (wrapSub mbuf.buf 10) ≠ 0
  frame : (frame mbuf).1 ≠ 0

structure Ready (vq : VringQueue) (free : List Nat) (chains : List (List Nat)) : Prop where
  layout : Layout vq free chains
  cleared : ∀ i ∈ free, (vq.desc i).addr = 0
  divides : vq.num ∣ 2 ^ 16
  counter : vq.availIdx < 2 ^ 16
  room : vq.numAdded + free.length ≤ vq.num

def added (vq : VringQueue) : List Nat :=
  pending (2 ^ 16) vq.num vq.availRing vq.availIdx (Virtio.uint16 (vq.availIdx + vq.numAdded))

section

variable {vq vq' : VringQueue} {free rest : List Nat} {chains : List (List Nat)} {first second : Nat}

theorem postChain_two (layout : Layout vq (first :: second :: rest) chains) (firstCleared : (vq.desc first).addr = 0)
    (secondCleared : (vq.desc second).addr = 0) {headerAddr headerLen addr len : Nat} (headerSet : headerAddr ≠ 0)
    (bodySet : addr ≠ 0) :
    ∃ vq', Virtio.postChain true vq [⟨false, headerAddr, headerLen⟩, ⟨false, addr, len⟩] = some vq' ∧
      frameAt vq' first = (addr, len) ∧
      (vq'.desc first).next = second ∧ ∀ j, j ≠ first -> j ≠ second -> vq'.desc j = vq.desc j := by
  have distinct := List.Nodup.of_append_left layout.distinct
  have apart : second ≠ first := by
    rintro rfl
    simp at distinct
  obtain rfl : vq.freeHead = first := layout.head first rfl
  have linked : (vq.desc vq.freeHead).next = second := by
    have chain := layout.linked
    rw [Links.Linked, isChain_cons_cons] at chain
    exact chain.1
  simp +contextual [Virtio.postChain, Virtio.fillLoop, firstCleared, secondCleared, headerSet, bodySet, linked,
    Virtio.VringQueue.setDesc, apart, apart.symm, frameAt]

theorem Ready.post {mbuf : Mbuf} (ready : Ready vq (first :: second :: rest) chains) (sendable : Sendable mbuf) :
    ∃ vq' chains', Virtio.postChain true vq (parts mbuf) = some vq' ∧ Ready vq' rest chains' ∧
      vq'.num = vq.num ∧ vq'.availIdx = vq.availIdx ∧ vq'.numAdded = vq.numAdded + 1 ∧ added vq' = added vq ++ [first] ∧
      frameAt vq' first = frame mbuf ∧ (vq'.desc first).next = second ∧
      ∀ j, j ≠ first -> j ≠ second -> vq'.desc j = vq.desc j := by
  have two : ∃ vq', Virtio.postChain true vq (parts mbuf) = some vq' ∧
      frameAt vq' first = ((frame mbuf).1, (frame mbuf).2) ∧
      (vq'.desc first).next = second ∧ ∀ j, j ≠ first -> j ≠ second -> vq'.desc j = vq.desc j :=
    postChain_two ready.layout (ready.cleared first (by simp)) (ready.cleared second (by simp)) sendable.header
      sendable.frame
  obtain ⟨vq', posted, content, link, others⟩ := two
  obtain ⟨layout, head, top, rings⟩ := ready.layout.posted (by simp [parts]) (by simp [parts]) posted
  obtain rfl : first = head := by simpa [parts] using top
  have room := ready.room
  have small := ready.layout.small
  simp only [length_cons] at room
  have distinct : (first :: second :: rest).Nodup := List.Nodup.of_append_left ready.layout.distinct
  refine ⟨vq', _, posted, ⟨layout, fun i among => ?_, ?_, ?_, ?_⟩, rings.num, rings.availIdx, rings.numAdded, ?_,
    content, link,
    others⟩
  · have inRest : i ∈ rest := among
    rw [others i (by rintro rfl; simp_all) (by rintro rfl; simp_all)]
    exact ready.cleared i (by simp [inRest])
  · rw [rings.num]
    exact ready.divides
  · rw [rings.availIdx]
    exact ready.counter
  · rw [rings.num, rings.numAdded]
    omega
  rw [added, added]
  nth_rewrite 1 [rings.availIdx]
  apply rings.pending ready.divides small ready.counter
  rw [Virtio.uint16, distance_add _ _ ready.counter (by omega)]
  omega

theorem Ready.addLoop {mbufs : List Mbuf} (ready : Ready vq free chains) (sendable : ∀ mbuf ∈ mbufs, Sendable mbuf) :
    ∃ n vq' heads, Virtio.addLoop .net true true mbufs vq = some (n, vq') ∧ n ≤ mbufs.length ∧
      vq'.availIdx = vq.availIdx ∧ vq'.numAdded = vq.numAdded + n ∧ added vq' = added vq ++ heads ∧
        heads.map (frameAt vq') = (mbufs.take n).map frame ∧
      ∀ j ∉ free, vq'.desc j = vq.desc j := by
  induction mbufs generalizing vq free chains with
  | nil => exact ⟨0, vq, [], rfl, Nat.le_refl _, rfl, rfl, by simp, rfl, fun _ _ => rfl⟩
  | cons mbuf mbufs ih =>
    by_cases short : vq.numFree < 2
    · exact ⟨0, vq, [], if_pos short, Nat.zero_le _, rfl, rfl, by simp, rfl, fun _ _ => rfl⟩
    have enough : 2 ≤ free.length := by
      rw [← ready.layout.count]
      omega
    obtain ⟨first, second, rest, rfl⟩ : ∃ first second rest, free = first :: second :: rest := by
      match free, enough with
      | first :: second :: rest, _ => exact ⟨first, second, rest, rfl⟩
    obtain ⟨mid, chains', posted, ready', -, idx, count, heads, content, link, others⟩ :=
      ready.post (sendable mbuf mem_cons_self)
    obtain ⟨n, vq', later, ran, le, idx', count', heads', contents, others'⟩ :=
      ih ready' fun other among => sendable other (mem_cons_of_mem _ among)
    have distinct := List.Nodup.of_append_left ready.layout.distinct
    have firstOut : first ∉ rest := fun inside => by simp [inside] at distinct
    have secondOut : second ∉ rest := fun inside => by simp [inside] at distinct
    refine ⟨n + 1, vq', first :: later, ?_, by simpa using le, idx'.trans idx, ?_, ?_, ?_, fun j outside => ?_⟩
    · rw [Virtio.addLoop, Virtio.VirtioType.scatterListSize, if_neg short, if_neg (sendable mbuf mem_cons_self).buf,
        scatterList_eq, posted]
      simp [ran]
    · rw [count', count]
      omega
    · rw [heads', heads]
      simp
    · -- the later chains leave the descriptors of this one alone
      have kept : frameAt vq' first = frame mbuf := by
        rw [← content, frameAt, frameAt, others' first firstOut, link, others' second secondOut]
      rw [map_cons, kept, contents]
      rfl
    · simp only [mem_cons, not_or] at outside
      rw [others' j outside.2.2, others j outside.1 outside.2.1]

theorem Ready.bulkAdd {mbufs : List Mbuf} (ready : Ready vq free chains) (synced : vq.numAdded = 0)
    (sendable : ∀ mbuf ∈ mbufs, Sendable mbuf) :
    ∃ n vq', Virtio.bulkAddToQueue .net vq mbufs true true = some (n, vq') ∧ n ≤ mbufs.length ∧
      posts vq vq' = (mbufs.take n).map frame := by
  obtain ⟨n, vq', heads, ran, le, idx, count, pushed, contents, -⟩ := ready.addLoop sendable
  have fresh : added vq = [] := by
    rw [added, synced, Nat.add_zero, Virtio.uint16, Nat.mod_eq_of_lt ready.counter]
    simp [pending, distance]
  rw [fresh, nil_append] at pushed
  refine ⟨n, if n > 0 then Virtio.syncAvialIdx vq' else vq', ?_, le, ?_⟩
  · rw [Virtio.bulkAddToQueue, ran]
    rfl
  rw [← contents, ← pushed]
  split
  next =>
    rw [posts, added, ← idx]
    rfl
  next zero =>
    have last : vq'.numAdded = 0 := by omega
    rw [posts, added, last, idx, Nat.add_zero, Virtio.uint16, Nat.mod_eq_of_lt ready.counter]

end

variable {driver : Driver}

def Driver.waiting (driver : Driver) : List Mbuf :=
  window driver.sendMbufList driver.sendMbufStart driver.sendMbufLen

def Usable (vq : VringQueue) : Prop :=
  ∃ reclaimed free chains, Virtio.bulkRemoveFromQueue vq maxBufListSize = some reclaimed ∧ Ready reclaimed free chains ∧
    reclaimed.numAdded = 0

theorem initVirtqueue_usable {k : Nat} (small : k ≤ 15) : Usable (Virtio.initVirtqueue (2 ^ k)) := by
  obtain ⟨free, chains, layout, -⟩ := Virtio.initVirtqueue_tracked small
  have few : free.length ≤ 2 ^ k := by
    have parts := layout.parts.length_eq
    rw [length_append, length_range] at parts
    exact (Nat.le_add_right ..).trans_eq parts
  have idle : Virtio.bulkRemoveFromQueue (Virtio.initVirtqueue (2 ^ k)) maxBufListSize =
      some (Virtio.initVirtqueue (2 ^ k)) := by
    simp [Virtio.bulkRemoveFromQueue, Virtio.initVirtqueue, distance]
  refine ⟨_, free, chains, idle, ⟨layout, fun _ _ => rfl, Nat.pow_dvd_pow 2 (by omega), Nat.two_pow_pos 16, ?_⟩, rfl⟩
  exact (Nat.zero_add _).trans_le few

theorem burstLoop_posts {sends : List VringQueue} (ready : ∀ vq ∈ sends, (∃ free chains, Ready vq free chains) ∧
    vq.numAdded = 0)
    (sendable : ∀ mbuf ∈ driver.waiting, Sendable mbuf) {ret : Nat} (within : ret ≤ driver.sendMbufLen) :
    ∃ n others, burstLoop driver ret sends = some (ret + n, others, ((driver.waiting.drop ret).take n).map frame) ∧
      ret + n ≤ driver.sendMbufLen := by
  induction sends generalizing ret with
  | nil => exact ⟨0, [], by simp [burstLoop], within⟩
  | cons vq rest ih =>
    obtain ⟨⟨free, chains, here⟩, synced⟩ := ready vq mem_cons_self
    have window : window driver.sendMbufList (driver.sendMbufStart + ret) (driver.sendMbufLen - ret) =
        driver.waiting.drop ret := (drop_window ..).symm
    have left : ∀ mbuf ∈ driver.waiting.drop ret, Sendable mbuf := fun mbuf among => sendable mbuf (mem_of_mem_drop among)
    obtain ⟨n, vq', ran, le, posted⟩ := here.bulkAdd synced left
    have length : driver.waiting.length = driver.sendMbufLen := length_window ..
    rw [length_drop, length] at le
    rw [burstLoop, window, ran]
    simp only [bind_eq_bind, bind_some]
    split
    next => exact ⟨n, vq' :: rest, by rw [posted], by omega⟩
    obtain ⟨m, others, later, bound⟩ := ih (fun other among => ready other (mem_cons_of_mem _ among))
      (show ret + n ≤ driver.sendMbufLen by omega)
    refine ⟨n + m, vq' :: others, ?_, by omega⟩
    rw [take_add, map_append, drop_drop, ← posted, ← Nat.add_assoc]
    simp only [later, bind_some]

theorem reclaim_ready {sends : List VringQueue} (usable : ∀ vq ∈ sends, Usable vq) :
    ∃ reclaimed, sends.mapM (fun vq => Virtio.bulkRemoveFromQueue vq maxBufListSize) = some reclaimed ∧
      ∀ vq ∈ reclaimed, (∃ free chains, Ready vq free chains) ∧ vq.numAdded = 0 := by
  induction sends with
  | nil => exact ⟨[], rfl, by simp⟩
  | cons vq rest ih =>
    obtain ⟨vq', free, chains, ran, ready, synced⟩ := usable vq mem_cons_self
    obtain ⟨others, ran', ready'⟩ := ih fun other among => usable other (mem_cons_of_mem _ among)
    refine ⟨vq' :: others, by simp [ran, ran'], ?_⟩
    rintro other (_ | ⟨_, among⟩)
    · exact ⟨⟨free, chains, ready⟩, synced⟩
    · exact ready' other among

structure Fits (driver : Driver) : Prop where
  inside : driver.sendMbufStart + driver.sendMbufLen ≤ maxBufListSize
  fresh : driver.sendMbufLen = 0 -> driver.sendMbufStart = 0

theorem burstSend_posts (fits : Fits driver) (usable : ∀ vq ∈ driver.sends, Usable vq)
    (sendable : ∀ mbuf ∈ driver.waiting, Sendable mbuf) :
    ∃ n driver', burstSend driver = some (n, driver') ∧ Fits driver' ∧
      driver'.posted = driver.posted ++ (driver.waiting.take n).map frame ∧ driver'.waiting = driver.waiting.drop n := by
  have inside := fits.inside
  rw [burstSend]
  split
  next => exact ⟨0, driver, rfl, fits, by simp, by simp⟩
  next more =>
    obtain ⟨reclaimed, taken, ready⟩ := reclaim_ready usable
    obtain ⟨n, others, looped, bound⟩ := burstLoop_posts ready sendable (Nat.zero_le driver.sendMbufLen)
    rw [Nat.zero_add, drop_zero] at looped
    have drop : driver.waiting.drop n =
        window driver.sendMbufList (driver.sendMbufStart + n) (driver.sendMbufLen - n) := drop_window ..
    rw [if_neg (by omega), taken]
    simp only [Run.some_bind, looped]
    split
    next zero =>
      subst zero
      exact ⟨_, _, rfl, ⟨fits.inside, fits.fresh⟩, rfl, rfl⟩
    split
    next all => exact ⟨_, _, rfl, ⟨by simp, fun _ => rfl⟩, rfl, by simp [all, Driver.waiting, window]⟩
    next => exact ⟨_, _, rfl, ⟨by dsimp only; omega, fun zero => by dsimp only at zero; omega⟩, rfl, drop.symm⟩

end JinyKernel.NetSched
