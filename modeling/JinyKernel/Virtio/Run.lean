import JinyKernel.Shared.Run
import JinyKernel.Virtio.Layout

namespace JinyKernel.Virtio

open List Option Run Cursors
open Links (Linked Threaded walk)

variable (s : System)

def posted : List Nat :=
  Cursors.pending (2 ^ 16) s.queue.num s.queue.availRing s.hostNext (uint16 (s.queue.availIdx + s.queue.numAdded))

def completed (vq : VringQueue) : List Nat :=
  (Cursors.pending (2 ^ 16) vq.num vq.usedRing vq.lastUsedIdx vq.usedIdx).map UsedElem.id

def inFlight : List Nat := posted s ++ s.held ++ completed s.queue

def freeList (vq : VringQueue) : List Nat := walk vq.link vq.numFree vq.freeHead

def chainOf (vq : VringQueue) (head : Nat) : List Nat := Links.follow vq.more vq.link vq.num head

structure Owned : Prop where
  distinct : (freeList s.queue).Nodup
  exactly : ∀ i, i ∈ freeList s.queue ↔ i < s.queue.num ∧ ∀ head ∈ inFlight s, i ∉ chainOf s.queue head
  apart : ((inFlight s).flatMap (chainOf s.queue)).Nodup

-- When the free list is empty, the first chain to come back is the one at `free_head`.
def Orderly : Event -> Prop
  | .remove => s.queue.numFree = 0 -> moreUsed s.queue = true -> s.queue.freeHead = s.queue.nextUsed.id
  | .bulkRemove listLen => 0 ≤ listLen ∧
      (0 < listLen -> s.queue.numFree = 0 -> moreUsed s.queue = true -> s.queue.freeHead = s.queue.nextUsed.id)
  | _ => True

def Start : Prop := ∃ k ≤ 15, s = { queue := initVirtqueue (2 ^ k) }

structure Traffic (chains : List (List Nat)) : Prop where
  divides : s.queue.num ∣ 2 ^ 16
  hostNext : s.hostNext < 2 ^ 16
  usedIdx : s.queue.usedIdx < 2 ^ 16
  lastUsedIdx : s.queue.lastUsedIdx < 2 ^ 16
  heads : (inFlight s).Perm (chains.filterMap List.head?)

def Tracked : Prop := ∃ free chains, Layout s.queue free chains ∧ Traffic s chains

section

variable {vq : VringQueue} {free : List Nat} {chains : List (List Nat)}

section

variable (layout : Layout vq free chains)

include layout

theorem Layout.heads_length : (chains.filterMap List.head?).length + free.length ≤ vq.num := by
  have whole := layout.parts.length_eq
  have short : ∀ list : List (List Nat), (list.filterMap List.head?).length ≤ list.flatten.length := by
    intro list
    induction list with
    | nil => rfl
    | cons chain rest ih =>
      cases chain with
      | nil => exact ih
      | cons head tail =>
        simp only [filterMap_cons, head?_cons, flatten_cons, length_append, length_cons]
        omega
  have fewer := short chains
  rw [length_append, length_range] at whole
  omega

theorem Layout.freeList : Virtio.freeList vq = free := by
  rw [Virtio.freeList, layout.count]
  cases free with
  | nil => rfl
  | cons first rest =>
    rw [layout.head first rfl, length_cons, layout.linked.walk_take (Nat.le_refl _)]
    exact take_of_length_le (Nat.le_refl _)

theorem Layout.chainOf {chain : List Nat} (among : chain ∈ chains) {head : Nat} (first : chain.head? = some head) :
    Virtio.chainOf vq head = chain := by
  obtain ⟨rest, rfl⟩ := head?_eq_some_iff.1 first
  have fits := layout.chain_length among
  exact (layout.threaded _ among).follow (by simpa using fits)

theorem Layout.flatMap_chainOf : (chains.filterMap List.head?).flatMap (Virtio.chainOf vq) = chains.flatten := by
  have each : ∀ list : List (List Nat), (∀ chain ∈ list, chain ∈ chains) ->
      (list.filterMap List.head?).flatMap (Virtio.chainOf vq) = list.flatten := by
    intro list inside
    induction list with
    | nil => rfl
    | cons chain rest ih =>
      have among := inside chain mem_cons_self
      have later := ih fun other there => inside other (mem_cons_of_mem _ there)
      cases first : chain.head? with
      | none => exact absurd (head?_eq_none_iff.1 first) (layout.threaded chain among).ne_nil
      | some head =>
        rw [filterMap_cons_some first, flatMap_cons, layout.chainOf among first, later, flatten_cons]
  exact each chains fun _ there => there

end

theorem Tracked.owned {s : System} (tracked : Tracked s) : Owned s := by
  obtain ⟨free, chains, layout, traffic⟩ := tracked
  have flat : ((inFlight s).flatMap (Virtio.chainOf s.queue)).Perm chains.flatten := by
    rw [← layout.flatMap_chainOf]
    exact traffic.heads.flatMap_right _
  refine ⟨?_, fun i => ?_, ?_⟩
  · rw [layout.freeList]
    exact List.Nodup.of_append_left layout.distinct
  · rw [layout.freeList]
    have everywhere := layout.parts.mem_iff (a := i)
    rw [mem_append, mem_range, ← flat.mem_iff, mem_flatMap] at everywhere
    have disjoint := disjoint_of_nodup_append layout.distinct
    constructor
    · intro inFree
      refine ⟨everywhere.1 (.inl inFree), fun head inside inChain => ?_⟩
      exact disjoint inFree (flat.mem_iff.1 (mem_flatMap.2 ⟨head, inside, inChain⟩))
    rintro ⟨below, outside⟩
    rcases everywhere.2 below with inFree | ⟨head, inside, inChain⟩
    · exact inFree
    · exact absurd inChain (outside head inside)
  · rw [flat.nodup_iff]
    exact List.Nodup.of_append_right layout.distinct

end

section

variable {s : System} {vq : VringQueue} {free : List Nat} {chains : List (List Nat)} {checked : Bool} {list : List Part}

theorem Traffic.length (traffic : Traffic s chains) (layout : Layout s.queue free chains) :
    (posted s).length + s.held.length + (completed s.queue).length + free.length ≤ s.queue.num := by
  have fewer := layout.heads_length
  rw [← traffic.heads.length_eq, inFlight, length_append, length_append] at fewer
  exact fewer

theorem Traffic.posted (traffic : Traffic s chains) (layout : Layout s.queue free chains) (some_parts : list ≠ [])
    (fits : list.length ≤ free.length) (post : postChain checked s.queue list = some vq) :
    Layout vq (free.drop list.length) (chains ++ [free.take list.length]) ∧
      Traffic { s with queue := vq } (chains ++ [free.take list.length]) := by
  obtain ⟨layout', head, first, rings⟩ := layout.posted some_parts fits post
  have positive := length_pos_iff.2 some_parts
  have bound := traffic.length layout
  have small := layout.small
  have pushed : Virtio.posted { s with queue := vq } = Virtio.posted s ++ [head] := by
    rw [Virtio.posted, length_pending] at bound
    have room : distance (2 ^ 16) s.hostNext (uint16 (s.queue.availIdx + s.queue.numAdded)) < s.queue.num := by omega
    exact rings.pending traffic.divides small traffic.hostNext room
  refine ⟨layout', ?_⟩
  constructor
  case divides => rw [rings.num]; exact traffic.divides
  case hostNext => exact traffic.hostNext
  case usedIdx => rw [rings.usedIdx]; exact traffic.usedIdx
  case lastUsedIdx => rw [rings.lastUsedIdx]; exact traffic.lastUsedIdx
  case heads =>
    have done : completed vq = completed s.queue := by
      rw [completed, completed, rings.num, rings.usedRing, rings.lastUsedIdx, rings.usedIdx]
    rw [filterMap_append, filterMap_cons_some first, filterMap_nil, inFlight, pushed, done]
    refine List.Perm.trans ?_ (traffic.heads.append_right [head])
    rw [inFlight, append_assoc, append_assoc, append_assoc, append_assoc]
    apply List.Perm.append_left
    exact perm_append_comm.trans (List.Perm.of_eq (by rw [append_assoc]))

theorem synced_posted : posted { s with queue := syncAvialIdx s.queue } = posted s := by
  rw [posted, posted, syncAvialIdx, Nat.add_zero]
  have twice : uint16 (uint16 (s.queue.availIdx + s.queue.numAdded)) = uint16 (s.queue.availIdx + s.queue.numAdded) :=
    Nat.mod_mod ..
  rw [twice]

theorem Tracked.synced (tracked : Tracked s) : Tracked { s with queue := syncAvialIdx s.queue } := by
  obtain ⟨free, chains, layout, traffic⟩ := tracked
  refine ⟨free, chains, ?_, traffic.divides, traffic.hostNext, traffic.usedIdx, traffic.lastUsedIdx, ?_⟩
  · exact { layout with }
  · rw [inFlight, synced_posted]
    exact traffic.heads

theorem Tracked.post (tracked : Tracked s) (some_parts : list ≠ []) (fits : list.length ≤ s.queue.numFree)
    (post : postChain checked s.queue list = some vq) : Tracked { s with queue := vq } := by
  obtain ⟨free, chains, layout, traffic⟩ := tracked
  rw [layout.count] at fits
  obtain ⟨layout', traffic'⟩ := traffic.posted layout some_parts fits post
  exact ⟨_, _, layout', traffic'⟩

theorem length_scatterList (type : VirtioType) (fromList readOnly : Bool) (mbuf : Mbuf) :
    (scatterList type fromList readOnly mbuf).length = type.scatterListSize := by cases type <;> rfl

variable (tracked : Tracked s)

include tracked

theorem Tracked.addLoop {type : VirtioType} {fromList readOnly : Bool} {mbufs : List Mbuf} {ret : Nat}
    (added : addLoop type fromList readOnly mbufs s.queue = some (ret, vq)) : Tracked { s with queue := vq } := by
  induction mbufs generalizing s ret with
  | nil =>
    cases added
    exact tracked
  | cons mbuf rest ih =>
    rw [Virtio.addLoop] at added
    split_ifs at added with full null
    · cases added
      exact tracked
    · exact ih tracked added
    simp only [bind_iff, Prod.exists, some.injEq, Prod.mk.injEq] at added
    obtain ⟨mid, post, later, vq', more, -, rfl⟩ := added
    have length := length_scatterList type fromList readOnly mbuf
    have some_parts : scatterList type fromList readOnly mbuf ≠ [] := by
      rw [← length_pos_iff, length]
      cases type <;> decide
    exact ih (s := { s with queue := mid }) (tracked.post some_parts (by rw [length]; omega) post) more

theorem Tracked.taken (more : moreUsed s.queue = true)
    (orderly : s.queue.numFree = 0 -> s.queue.freeHead = s.queue.nextUsed.id)
    (take : takeUsed checked s.queue = some vq) : Tracked { s with queue := vq } ∧ 0 < vq.numFree ∧
      distance (2 ^ 16) s.queue.lastUsedIdx s.queue.usedIdx =
        distance (2 ^ 16) vq.lastUsedIdx vq.usedIdx + 1 := by
  obtain ⟨free, chains, layout, traffic⟩ := tracked
  have pending : s.queue.lastUsedIdx ≠ s.queue.usedIdx := by simpa [moreUsed] using more
  have popped : Cursors.pending (2 ^ 16) s.queue.num s.queue.usedRing s.queue.lastUsedIdx s.queue.usedIdx =
      s.queue.nextUsed :: Cursors.pending (2 ^ 16) s.queue.num s.queue.usedRing (uint16 (s.queue.lastUsedIdx + 1))
        s.queue.usedIdx :=
    pending_pop traffic.divides traffic.lastUsedIdx traffic.usedIdx pending
  have heads : (posted s ++ s.held ++ s.queue.nextUsed.id ::
      completed { s.queue with lastUsedIdx := uint16 (s.queue.lastUsedIdx + 1) }).Perm (chains.filterMap List.head?) := by
    have whole := traffic.heads
    rw [inFlight, completed, popped, map_cons] at whole
    exact whole
  -- the head just completed is that of a chain
  have found : s.queue.nextUsed.id ∈ chains.filterMap List.head? := heads.mem_iff.1 (by simp)
  obtain ⟨chain, among, first⟩ := mem_filterMap.1 found
  obtain ⟨before, behind, rfl⟩ := append_of_mem among
  obtain ⟨vq', detached, layout', rings⟩ :=
    layout.detached first fun empty => orderly (by rw [layout.count, empty]; rfl)
  have result : vq = { vq' with lastUsedIdx := uint16 (s.queue.lastUsedIdx + 1) } := by
    rw [takeUsed] at take
    split_ifs at take
    rw [detached] at take
    rw [← rings.lastUsedIdx]
    exact (some.inj take).symm
  subst result
  have positive : 0 < vq'.numFree := by
    rw [layout'.count, length_append]
    have := length_pos_iff.2 (layout.threaded chain among).ne_nil
    omega
  refine ⟨⟨free ++ chain, before ++ behind, ?_, ?_⟩, positive, ?_⟩
  · exact { layout' with }
  · constructor
    case divides => exact rings.num ▸ traffic.divides
    case hostNext => exact traffic.hostNext
    case usedIdx => exact rings.usedIdx ▸ traffic.usedIdx
    case lastUsedIdx => exact Nat.mod_lt _ (by decide)
    case heads =>
      have same : inFlight { s with queue := { vq' with lastUsedIdx := uint16 (s.queue.lastUsedIdx + 1) } } =
          posted s ++ s.held ++ completed { s.queue with lastUsedIdx := uint16 (s.queue.lastUsedIdx + 1) } := by
        simp only [inFlight, posted, completed, rings.num, rings.availIdx, rings.numAdded, rings.availRing, rings.usedIdx,
          rings.usedRing]
      rw [same, filterMap_append]
      rw [filterMap_append, filterMap_cons_some first] at heads
      exact (perm_middle.symm.trans (heads.trans perm_middle)).cons_inv
  · have lengths := congrArg List.length popped
    rw [length_pending, length_cons, length_pending] at lengths
    rw [lengths]
    rw [rings.usedIdx]

theorem Tracked.removeLoop {count : Nat}
    (enough : count ≤ distance (2 ^ 16) s.queue.lastUsedIdx s.queue.usedIdx)
    (orderly : 0 < count -> s.queue.numFree = 0 -> s.queue.freeHead = s.queue.nextUsed.id)
    (removed : removeLoop count s.queue = some vq) : Tracked { s with queue := vq } := by
  induction count generalizing s with
  | zero =>
    cases removed
    exact tracked
  | succ count ih =>
    obtain ⟨mid, take, later⟩ := bind_iff.1 removed
    have more : moreUsed s.queue = true := by
      rw [moreUsed, bne_iff_ne]
      intro same
      rw [same, distance, Nat.add_sub_cancel_left, Nat.mod_self] at enough
      omega
    obtain ⟨tracked', positive, shorter⟩ := tracked.taken more (orderly (Nat.succ_pos count)) take
    exact ih (s := { s with queue := mid }) tracked' (by dsimp only; omega) (fun _ empty => by dsimp only at empty; omega)
      later

theorem Tracked.hostTake (synced : s.queue.numAdded = 0) (small : s.queue.availIdx < 2 ^ 16)
    (more : s.hostNext ≠ s.queue.availIdx) :
    Tracked { s with
      hostNext := uint16 (s.hostNext + 1), held := s.held ++ [s.queue.availRing (s.hostNext % s.queue.num)] } := by
  obtain ⟨free, chains, layout, traffic⟩ := tracked
  have stop : uint16 (s.queue.availIdx + s.queue.numAdded) = s.queue.availIdx := by
    rw [synced, Nat.add_zero]
    exact Nat.mod_eq_of_lt small
  have popped : Cursors.pending (2 ^ 16) s.queue.num s.queue.availRing s.hostNext s.queue.availIdx =
      s.queue.availRing (s.hostNext % s.queue.num) ::
        Cursors.pending (2 ^ 16) s.queue.num s.queue.availRing (uint16 (s.hostNext + 1)) s.queue.availIdx :=
    pending_pop traffic.divides traffic.hostNext small more
  refine ⟨free, chains, layout, traffic.divides, Nat.mod_lt _ (by decide), traffic.usedIdx, traffic.lastUsedIdx, ?_⟩
  refine List.Perm.trans ?_ traffic.heads
  simp only [inFlight, posted, stop, popped]
  -- the head goes from the front of the ring to the end of those held
  apply List.Perm.append_right
  rw [← append_assoc]
  exact perm_append_singleton ..

theorem Tracked.hostComplete {head len : Nat} (holds : head ∈ s.held) :
    Tracked { s with
      held := s.held.erase head
      queue := { s.queue with
        usedRing := Function.update s.queue.usedRing (s.queue.usedIdx % s.queue.num) ⟨head, len⟩
        usedIdx := uint16 (s.queue.usedIdx + 1) } } := by
  obtain ⟨free, chains, layout, traffic⟩ := tracked
  have bound := traffic.length layout
  have some_held := length_pos_iff.2 (ne_nil_of_mem holds)
  have room : distance (2 ^ 16) s.queue.lastUsedIdx s.queue.usedIdx < s.queue.num := by
    rw [completed, length_map, length_pending] at bound
    omega
  have pushed : Cursors.pending (2 ^ 16) s.queue.num
      (Function.update s.queue.usedRing (s.queue.usedIdx % s.queue.num) ⟨head, len⟩) s.queue.lastUsedIdx
      (uint16 (s.queue.usedIdx + 1)) =
        Cursors.pending (2 ^ 16) s.queue.num s.queue.usedRing s.queue.lastUsedIdx s.queue.usedIdx ++ [⟨head, len⟩] :=
    pending_push traffic.divides traffic.lastUsedIdx traffic.usedIdx layout.small room _
  refine ⟨free, chains, ?_, traffic.divides, traffic.hostNext, Nat.mod_lt _ (by decide), traffic.lastUsedIdx, ?_⟩
  · exact { layout with }
  refine List.Perm.trans ?_ traffic.heads
  simp only [inFlight, posted, completed, pushed, map_append, map_singleton]
  -- the head goes from those held to the end of the ring
  rw [append_assoc, append_assoc]
  apply List.Perm.append_left
  rw [← append_assoc]
  refine perm_append_comm.trans ?_
  rw [← append_assoc]
  apply List.Perm.append_right
  exact (perm_cons_erase holds).symm

end

theorem initVirtqueue_tracked {k : Nat} (small : k ≤ 15) : Tracked { queue := initVirtqueue (2 ^ k) } := by
  have positive : 0 < 2 ^ k := Nat.two_pow_pos k
  have bound : 2 ^ k ≤ 2 ^ 15 := Nat.pow_le_pow_right (by decide) small
  refine ⟨List.range (2 ^ k), [], ?_, ?_⟩
  · constructor
    case small => exact Nat.lt_of_le_of_lt bound (by decide)
    case count => exact (length_range ..).symm
    case parts => rw [flatten_nil, append_nil]; rfl
    case linked =>
      refine (isChain_range _ _).2 fun i before => ?_
      exact if_pos (by omega)
    case head =>
      intro first starts
      obtain ⟨n, size⟩ := Nat.exists_eq_add_of_lt positive
      rw [size, range_succ_eq_map] at starts
      exact some.inj starts
    case tail =>
      intro last ends
      rw [getLast?_range, if_neg (by omega)] at ends
      exact some.inj ends
    case spent =>
      intro empty
      rw [range_eq_nil] at empty
      omega
    case threaded => intro chain among; cases among
    case direct => intro chain among; cases among
  · have zero : 0 < 2 ^ 16 := by decide
    refine ⟨Nat.pow_dvd_pow 2 (by omega), zero, zero, zero, ?_⟩
    have empty : inFlight { queue := initVirtqueue (2 ^ k) } = [] := by
      simp [inFlight, posted, completed, Cursors.pending, distance, initVirtqueue, uint16]
    rw [empty]
    rfl

structure Settled (s : System) : Prop where
  tracked : Tracked s
  numAdded : s.queue.numAdded = 0
  availIdx : s.queue.availIdx < 2 ^ 16

variable {s : System} {vq vq' : VringQueue}

theorem Start.settled (start : Start s) : Settled s := by
  obtain ⟨k, small, rfl⟩ := start
  exact ⟨initVirtqueue_tracked small, rfl, Nat.two_pow_pos 16⟩

theorem Tracked.settled (tracked : Tracked s) : Settled { s with queue := syncAvialIdx s.queue } :=
  ⟨tracked.synced, rfl, Nat.mod_lt _ (Nat.two_pow_pos 16)⟩

variable {type : VirtioType} {fromList readOnly checked : Bool} {mbufs : List Mbuf}

theorem addLoop_none (added : addLoop type fromList readOnly mbufs vq = some (0, vq')) : vq' = vq := by
  induction mbufs generalizing vq with
  | nil =>
    cases added
    rfl
  | cons mbuf rest ih =>
    rw [addLoop] at added
    split_ifs at added
    · cases added
      rfl
    · exact ih added
    · simp only [bind_iff, Prod.exists, some.injEq, Prod.mk.injEq] at added
      omega

theorem detachLoop_rings {fuel : Nat} {i last : Nat} (loop : detachLoop fuel vq i = some (vq', last)) :
    vq'.numAdded = vq.numAdded ∧ vq'.availIdx = vq.availIdx ∧ vq'.usedIdx = vq.usedIdx := by
  induction fuel generalizing vq i with
  | zero => cases loop
  | succ fuel ih =>
    rw [detachLoop] at loop
    split_ifs at loop
    · have later := ih loop
      exact later
    · cases loop
      exact ⟨rfl, rfl, rfl⟩

theorem takeUsed_rings (take : takeUsed checked vq = some vq') :
    vq'.numAdded = vq.numAdded ∧ vq'.availIdx = vq.availIdx ∧ vq'.usedIdx = vq.usedIdx ∧ vq'.lastUsedIdx < 2 ^ 16 := by
  rw [takeUsed] at take
  split_ifs at take
  obtain ⟨mid, detached, result⟩ := bind_iff.1 take
  cases result
  rw [detachBuf] at detached
  split_ifs at detached
  simp only [bind_iff, Prod.exists, some.injEq] at detached
  obtain ⟨cleared, last, loop, rfl⟩ := detached
  obtain ⟨added, idx, used⟩ := detachLoop_rings loop
  split_ifs
  · exact ⟨added, idx, used, Nat.mod_lt _ (by decide)⟩
  · exact ⟨added, idx, used, Nat.mod_lt _ (by decide)⟩

theorem removeLoop_rings {count : Nat} (removed : removeLoop count vq = some vq') :
    vq'.numAdded = vq.numAdded ∧ vq'.availIdx = vq.availIdx := by
  induction count generalizing vq with
  | zero =>
    cases removed
    exact ⟨rfl, rfl⟩
  | succ count ih =>
    obtain ⟨mid, take, later⟩ := bind_iff.1 removed
    obtain ⟨added, idx, -⟩ := takeUsed_rings take
    obtain ⟨added', idx'⟩ := ih later
    exact ⟨added'.trans added, idx'.trans idx⟩

theorem bulkRemoveFromQueue_rings {listLen : Int} (removed : bulkRemoveFromQueue vq listLen = some vq') :
    vq'.numAdded = vq.numAdded ∧ vq'.availIdx = vq.availIdx := by
  rw [bulkRemoveFromQueue] at removed
  split at removed
  next =>
    cases removed
    exact ⟨rfl, rfl⟩
  next => exact removeLoop_rings removed

theorem postChain_rings {list : List Part} (posted : postChain checked vq list = some vq') :
    vq'.numAdded = vq.numAdded + 1 ∧ vq'.availIdx = vq.availIdx ∧ vq'.usedIdx = vq.usedIdx ∧
      vq'.lastUsedIdx = vq.lastUsedIdx := by
  rw [postChain] at posted
  simp only [bind_iff, Prod.exists, some.injEq] at posted
  obtain ⟨mid, i, prev, fill, rfl⟩ := posted
  rw [(fillLoop_filled fill).1.others]
  exact ⟨rfl, rfl, rfl, rfl⟩

theorem addLoop_rings {ret : Nat} (added : addLoop type fromList readOnly mbufs vq = some (ret, vq')) :
    ret ≤ mbufs.length ∧ vq'.numAdded = vq.numAdded + ret ∧ vq'.availIdx = vq.availIdx ∧ vq'.usedIdx = vq.usedIdx ∧
      vq'.lastUsedIdx = vq.lastUsedIdx := by
  induction mbufs generalizing vq ret with
  | nil =>
    cases added
    exact ⟨Nat.le_refl _, rfl, rfl, rfl, rfl⟩
  | cons mbuf rest ih =>
    rw [addLoop] at added
    split_ifs at added
    · cases added
      exact ⟨Nat.zero_le _, rfl, rfl, rfl, rfl⟩
    · obtain ⟨le, others⟩ := ih added
      exact ⟨le.trans (Nat.le_succ _), others⟩
    simp only [bind_iff, Prod.exists, some.injEq, Prod.mk.injEq] at added
    obtain ⟨mid, post, more, last, later, rfl, rfl⟩ := added
    obtain ⟨count, idx, used, lastUsed⟩ := postChain_rings post
    obtain ⟨le, count', idx', used', lastUsed'⟩ := ih later
    exact ⟨Nat.succ_le_succ le, by rw [count', count]; omega, idx'.trans idx, used'.trans used, lastUsed'.trans lastUsed⟩

theorem step_settled {next : System} {event : Event} (settled : Settled s) (orderly : Orderly s event)
    (moved : step s event = some next) : Settled next := by
  obtain ⟨tracked, numAdded, availIdx⟩ := settled
  cases event with
  | addBuf out into =>
    simp only [step, bind_iff, Prod.exists, some.injEq] at moved
    obtain ⟨ret, vq, added, rfl⟩ := moved
    rw [virtioAddBufToQueue] at added
    split_ifs at added with bug full
    · cases added
      exact ⟨tracked, numAdded, availIdx⟩
    simp only [bind_iff, some.injEq, Prod.mk.injEq] at added
    obtain ⟨mid, post, -, rfl⟩ := added
    have length : (out.map (fun (addr, len) => (⟨false, addr, len⟩ : Part)) ++
        into.map fun (addr, len) => (⟨true, addr, len⟩ : Part)).length = out.length + into.length := by simp
    refine (tracked.post ?_ ?_ post).settled
    · rw [← length_pos_iff, length]
      omega
    · rw [length]
      omega
  | bulkAdd type mbufs fromList readOnly =>
    simp only [step, bulkAddToQueue, bind_iff, Prod.exists, some.injEq, Prod.mk.injEq] at moved
    obtain ⟨_, vq, ⟨ret, mid, added, rfl, rfl⟩, rfl⟩ := moved
    split_ifs with some_added
    · exact (tracked.addLoop added).settled
    · obtain rfl : ret = 0 := by omega
      rw [addLoop_none added]
      exact ⟨tracked, numAdded, availIdx⟩
  | remove =>
    simp only [step, bind_iff, some.injEq] at moved
    obtain ⟨vq, removed, rfl⟩ := moved
    rw [virtioRemoveFromQueue] at removed
    split_ifs at removed with more
    · obtain ⟨added, idx, -⟩ := takeUsed_rings removed
      refine ⟨(tracked.taken more (fun empty => orderly empty more) removed).1, added.trans numAdded, ?_⟩
      rw [idx]
      exact availIdx
    · cases removed
      exact ⟨tracked, numAdded, availIdx⟩
  | bulkRemove listLen =>
    simp only [step, bind_iff, some.injEq] at moved
    obtain ⟨vq, removed, rfl⟩ := moved
    obtain ⟨positive, order⟩ := orderly
    rw [bulkRemoveFromQueue] at removed
    split_ifs at removed with none long
    · cases removed
      exact ⟨tracked, numAdded, availIdx⟩
    all_goals
      obtain ⟨added, idx⟩ := removeLoop_rings removed
      have more : moreUsed s.queue = true := by
        rw [moreUsed, bne_iff_ne]
        intro same
        rw [same, distance, Nat.add_sub_cancel_left, Nat.mod_self] at none
        exact none rfl
      refine ⟨tracked.removeLoop ?_ (fun some_asked empty => order ?_ empty more) removed, added.trans numAdded, ?_⟩
      · omega
      · omega
      · rw [idx]
        exact availIdx
  | hostTake =>
    rw [step] at moved
    split_ifs at moved with nothing
    cases moved
    exact ⟨tracked.hostTake numAdded availIdx nothing, numAdded, availIdx⟩
  | hostComplete head len =>
    rw [step] at moved
    split_ifs at moved with holds
    cases moved
    exact ⟨tracked.hostComplete holds, numAdded, availIdx⟩

theorem descriptors_owned {s : System} (reached : Reachable Start step Orderly s) : Owned s := by
  have settled : Settled s := reached.invariant (fun _ => Start.settled)
    fun _ _ _ => step_settled
  exact settled.tracked.owned

theorem descriptors_owned_in_order :
    ∃ s, Reachable Start step Orderly s ∧ freeList s.queue = [0] ∧ inFlight s = [1] ∧ Owned s := by
  have ran : ((List.foldlM step { queue := initVirtqueue (2 ^ 1) }
      [.addBuf [(4096, 64)] [], .addBuf [(8192, 64)] [], .hostTake, .hostTake, .hostComplete 0 64]).any fun s =>
        s.queue.freeHead = s.queue.nextUsed.id ∧ (step s .remove).any fun next =>
          freeList next.queue = [0] ∧ inFlight next = [1]) = true := by decide +kernel
  obtain ⟨s, ended, holds⟩ := holds_of_any ran
  obtain ⟨next, moved, later⟩ := (any_eq_true _ _).1 holds.2
  simp only [decide_eq_true_eq] at later
  have start : Reachable Start step Orderly { queue := initVirtqueue (2 ^ 1) } := .start ⟨1, by decide, rfl⟩
  have full : Reachable Start step Orderly s := by
    refine start.foldlM (fun event among state => ?_) ended
    simp only [mem_cons, not_mem_nil, or_false] at among
    rcases among with rfl | rfl | rfl | rfl | rfl <;> trivial
  have orderly : Orderly s .remove := fun _ _ => holds.1
  have reached : Reachable Start step Orderly next := .next full orderly moved
  exact ⟨next, reached, later.1, later.2, descriptors_owned reached⟩

def outOfOrder : List Event :=
  [.addBuf [(4096, 64)] [], .addBuf [(8192, 64)] [], .hostTake, .hostTake, .hostComplete 1 64, .remove]

theorem out_of_order_return :
    ∃ s next, Reachable Start step (fun _ _ => True) s ∧ freeList s.queue = [0] ∧ s.held = [0] ∧ ¬ Owned s ∧
      step s (.addBuf [(12288, 64)] []) = some next ∧ chainOf next.queue 0 = [0] ∧ (next.queue.desc 0).addr = 12288 := by
  have ran : ((outOfOrder.foldlM step { queue := initVirtqueue (2 ^ 1) }).any fun s =>
      freeList s.queue = [0] ∧ s.held = [0] ∧ chainOf s.queue 0 = [0] ∧ s.queue.num = 2 ∧ inFlight s = [0] ∧
        (step s (.addBuf [(12288, 64)] [])).any fun next =>
          chainOf next.queue 0 = [0] ∧ (next.queue.desc 0).addr = 12288) = true := by decide +kernel
  obtain ⟨s, ended, holds⟩ := holds_of_any ran
  obtain ⟨free, held, chain, size, flight, again⟩ := holds
  obtain ⟨next, moved, later⟩ := holds_of_any again
  have start : Reachable Start step (fun _ _ => True) { queue := initVirtqueue (2 ^ 1) } :=
    .start ⟨1, by decide, rfl⟩
  refine ⟨s, next, start.foldlM (fun _ _ _ => trivial) ended, free, held, fun owned => ?_, moved, later⟩
  have outside := ((owned.exactly 0).1 (by rw [free]; simp)).2 0 (by rw [flight]; simp)
  exact outside (by rw [chain]; simp)

end JinyKernel.Virtio
