import JinyKernel.Shared.Links
import JinyKernel.Virtio.Model
import Mathlib.Data.List.Nodup
import Mathlib.Data.List.Perm.Subperm

namespace JinyKernel.Virtio

open List Option Cursors Function
open Links (Linked Threaded walk)

variable (vq : VringQueue)

def VringQueue.link (i : Nat) : Nat := (vq.desc i).next
def VringQueue.more (i : Nat) : Bool := (vq.desc i).flags.next

structure Layout (free : List Nat) (chains : List (List Nat)) : Prop where
  small : vq.num < 2 ^ 16
  count : vq.numFree = free.length
  parts : (free ++ chains.flatten).Perm (List.range vq.num)
  linked : Linked vq.link free
  head : ∀ first ∈ free.head?, vq.freeHead = first
  tail : ∀ last ∈ free.getLast?, vq.freeTail = last
  spent : free = [] -> ∃ chain ∈ chains, chain.getLast? = some vq.freeTail
  threaded : ∀ chain ∈ chains, Threaded vq.more vq.link chain
  direct : ∀ chain ∈ chains, ∀ i ∈ chain, (vq.desc i).flags.indirect = false

@[simp]
theorem setDesc_self (i : Nat) (desc : Desc) : (vq.setDesc i desc).desc i = desc :=
  update_self ..

theorem setDesc_ne {i j : Nat} (desc : Desc) (apart : j ≠ i) : (vq.setDesc i desc).desc j = vq.desc j :=
  update_of_ne apart ..

theorem setDesc_link {vq : VringQueue} {i : Nat} {desc : Desc} (same : desc.next = (vq.desc i).next) :
    (vq.setDesc i desc).link = vq.link := by
  funext j
  by_cases here : j = i
  · rw [here, VringQueue.link, setDesc_self, same]
    rfl
  · rw [VringQueue.link, setDesc_ne vq desc here]
    rfl

section

variable {vq vq' : VringQueue} {checked : Bool} {list : List Part} {i i' prev prev' : Nat}

structure Filled (vq vq' : VringQueue) (nodes : List Nat) : Prop where
  others : vq' = { vq with desc := vq'.desc }
  link : vq'.link = vq.link
  outside : ∀ j ∉ nodes, vq'.desc j = vq.desc j
  each : ∀ j ∈ nodes, vq'.more j = true ∧ (vq'.desc j).flags.indirect = false

theorem fillLoop_filled (filled : fillLoop checked list vq i prev = some (vq', i', prev')) :
    Filled vq vq' (walk vq.link list.length i) ∧ i' = vq.link^[list.length] i ∧
      prev' = (walk vq.link list.length i).getLast?.getD prev := by
  induction list generalizing vq i prev with
  | nil =>
    cases filled
    exact ⟨⟨rfl, rfl, fun _ _ => rfl, fun _ among => absurd among not_mem_nil⟩, rfl, rfl⟩
  | cons part rest ih =>
    rw [fillLoop] at filled
    split_ifs at filled
    obtain ⟨later, behind, last⟩ := ih filled
    -- filling leaves every link as it is
    have link : (vq.setDesc i ⟨part.addr, part.len, ⟨true, part.write, false⟩, (vq.desc i).next⟩).link = vq.link :=
      setDesc_link rfl
    rw [link] at later behind last
    refine ⟨⟨?_, later.link.trans link, fun j outside => ?_, fun j among => ?_⟩, behind, ?_⟩
    · rw [later.others]
      rfl
    · rw [length_cons, walk, mem_cons, not_or] at outside
      rw [later.outside j outside.2, setDesc_ne vq _ outside.1]
    · rw [length_cons, walk, mem_cons] at among
      by_cases filled : j ∈ walk vq.link rest.length (vq.link i)
      · exact later.each j filled
      · rw [VringQueue.more, later.outside j filled, among.resolve_right filled, setDesc_self]
        exact ⟨rfl, rfl⟩
    · rw [length_cons, walk, last]
      rw [getLast?_cons, getD_some]
      rfl

end

namespace Layout

variable {vq : VringQueue} {free chain : List Nat} {chains : List (List Nat)} {i : Nat}

section

variable (layout : Layout vq free chains)

include layout

theorem distinct : (free ++ chains.flatten).Nodup :=
  layout.parts.nodup_iff.2 nodup_range

theorem apart (inFree : i ∈ free) (among : chain ∈ chains) : i ∉ chain := by
  intro inChain
  exact disjoint_of_nodup_append layout.distinct inFree (mem_flatten_of_mem among inChain)

theorem chain_distinct (among : chain ∈ chains) : chain.Nodup :=
  (nodup_flatten.1 (List.Nodup.of_append_right layout.distinct)).1 chain among

theorem chain_lt (among : chain ∈ chains) (inChain : i ∈ chain) : i < vq.num := by
  have there := mem_append_right free (mem_flatten_of_mem among inChain)
  exact mem_range.1 (layout.parts.mem_iff.1 there)

theorem chain_length (among : chain ∈ chains) : chain.length ≤ vq.num := by
  have fits : chain.Subperm (List.range vq.num) :=
    subperm_of_subset (layout.chain_distinct among) fun i inChain => mem_range.2 (layout.chain_lt among inChain)
  simpa using fits.length_le

end

theorem not_mem_dropLast {nodes : List Nat} (distinct : nodes.Nodup) (ends : nodes.getLast? = some i) :
    i ∉ nodes.dropLast := by
  have split := dropLast_append_getLast? i ends
  rw [← split] at distinct
  intro inside
  exact disjoint_of_nodup_append distinct inside mem_cons_self

theorem tail_outside (layout : Layout vq free chains) (among : chain ∈ chains) : vq.freeTail ∉ chain.dropLast := by
  intro inside
  have inChain := dropLast_subset chain inside
  cases ends : free.getLast? with
  | some last =>
    rw [layout.tail last ends] at inChain
    exact layout.apart (mem_of_getLast? ends) among inChain
  | none =>
    obtain ⟨other, among', ends'⟩ := layout.spent (getLast?_eq_none_iff.1 ends)
    have apart := (nodup_flatten.1 (List.Nodup.of_append_right layout.distinct)).2
    by_cases same : chain = other
    · rw [same] at inside
      exact not_mem_dropLast (layout.chain_distinct among') ends' inside
    · have : Std.Symm (@List.Disjoint Nat) := ⟨fun _ _ disjoint _ right left => disjoint left right⟩
      exact apart.forall among among' same inChain (mem_of_getLast? ends')

end Layout

structure Posted (vq vq' : VringQueue) (head : Nat) : Prop where
  num : vq'.num = vq.num
  availIdx : vq'.availIdx = vq.availIdx
  numAdded : vq'.numAdded = vq.numAdded + 1
  availRing : vq'.availRing = update vq.availRing ((vq.availIdx + vq.numAdded) % vq.num) head
  usedIdx : vq'.usedIdx = vq.usedIdx
  usedRing : vq'.usedRing = vq.usedRing
  lastUsedIdx : vq'.lastUsedIdx = vq.lastUsedIdx

theorem Posted.pending {vq vq' : VringQueue} {head base : Nat} (rings : Posted vq vq' head) (divides : vq.num ∣ 2 ^ 16)
    (small : vq.num < 2 ^ 16) (start : base < 2 ^ 16)
    (room : distance (2 ^ 16) base (uint16 (vq.availIdx + vq.numAdded)) < vq.num) :
    pending (2 ^ 16) vq'.num vq'.availRing base (uint16 (vq'.availIdx + vq'.numAdded)) =
      pending (2 ^ 16) vq.num vq.availRing base (uint16 (vq.availIdx + vq.numAdded)) ++ [head] := by
  have slot : (vq.availIdx + vq.numAdded) % vq.num = uint16 (vq.availIdx + vq.numAdded) % vq.num :=
    (Nat.mod_mod_of_dvd _ divides).symm
  have next : uint16 (vq.availIdx + (vq.numAdded + 1)) = (uint16 (vq.availIdx + vq.numAdded) + 1) % 2 ^ 16 := by
    rw [uint16, uint16, Nat.mod_add_mod, Nat.add_assoc]
  have last : uint16 (vq.availIdx + vq.numAdded) < 2 ^ 16 := Nat.mod_lt _ (by decide)
  rw [rings.num, rings.availIdx, rings.numAdded, rings.availRing, slot, next]
  exact pending_push divides start last small room head

section

variable {vq vq' : VringQueue} {free : List Nat} {chains : List (List Nat)} {checked : Bool} {list : List Part}

structure Chained (vq vq' : VringQueue) (nodes : List Nat) : Prop where
  link : vq'.link = vq.link
  outside : ∀ j ∉ nodes, vq'.desc j = vq.desc j
  last : ∀ last ∈ nodes.getLast?, vq'.more last = false
  more : ∀ j ∈ nodes, nodes.getLast? ≠ some j -> vq'.more j = true
  direct : ∀ j ∈ nodes, (vq'.desc j).flags.indirect = false

theorem Filled.chained {mid : VringQueue} {nodes : List Nat} {prev : Nat} (filled : Filled vq mid nodes)
    (last : nodes.getLast? = some prev) :
    Chained vq (mid.setDesc prev { mid.desc prev with flags := { (mid.desc prev).flags with next := false } }) nodes where
  link := by
    rw [setDesc_link (by rfl)]
    exact filled.link
  outside j outside := by
    have other : j ≠ prev := by
      rintro rfl
      exact outside (mem_of_getLast? last)
    rw [setDesc_ne mid _ other, filled.outside j outside]
  last other ends := by
    rw [last, mem_some_iff] at ends
    rw [VringQueue.more, ← ends, setDesc_self]
  more j among ends := by
    have other : j ≠ prev := fun same => ends (by rw [same]; exact last)
    rw [VringQueue.more, setDesc_ne mid _ other]
    exact (filled.each j among).1
  direct j among := by
    by_cases here : j = prev
    · rw [here, setDesc_self]
      exact (filled.each prev (mem_of_getLast? last)).2
    · rw [setDesc_ne mid _ here]
      exact (filled.each j among).2

theorem postChain_chained (layout : Layout vq free chains) (some_parts : list ≠ []) (fits : list.length ≤ free.length)
    (posted : postChain checked vq list = some vq') :
    Chained vq vq' (free.take list.length) ∧ vq'.numFree = vq.numFree - list.length ∧ vq'.freeTail = vq.freeTail ∧
      (∀ first ∈ (free.drop list.length).head?, vq'.freeHead = first) ∧
      ∃ head, (free.take list.length).head? = some head ∧ Posted vq vq' head := by
  cases free with
  | nil =>
    have zero : list.length = 0 := by simpa using fits
    exact absurd (length_eq_zero_iff.1 zero) some_parts
  | cons first rest =>
    obtain rfl : vq.freeHead = first := layout.head first rfl
    have positive := length_pos_iff.2 some_parts
    have nodes := layout.linked.walk_take (by simpa using fits)
    rw [postChain] at posted
    simp only [bind_eq_bind, bind_eq_some_iff, Prod.exists, some.injEq] at posted
    obtain ⟨mid, i, prev, fill, rfl⟩ := posted
    obtain ⟨filled, behind, last⟩ := fillLoop_filled fill
    have link : VringQueue.link { vq with numFree := vq.numFree - list.length } = vq.link := rfl
    rw [link, nodes] at filled last
    have ends : ((vq.freeHead :: rest).take list.length).getLast? = some prev := by
      cases found : ((vq.freeHead :: rest).take list.length).getLast? with
      | none =>
        rw [getLast?_eq_none_iff, take_eq_nil_iff] at found
        rcases found with zero | nil
        · omega
        · cases nil
      | some other =>
        rw [found, getD_some] at last
        rw [last]
    have chained := filled.chained ends
    have others := filled.others
    refine ⟨{ chained with }, ?_, ?_, ?_, vq.freeHead, ?_, ?_⟩
    · rw [others]
      rfl
    · rw [others]
      rfl
    · intro next among
      rw [head?_drop] at among
      obtain ⟨inside, _⟩ := List.getElem?_eq_some_iff.1 among
      rw [layout.linked.iterate (by simpa using inside), mem_some_iff] at among
      rw [← among]
      exact behind
    · rw [head?_take, if_neg (by omega)]
      rfl
    have inside : vq.freeHead < vq.num := by
      have there : vq.freeHead ∈ vq.freeHead :: rest ++ chains.flatten := by simp
      exact mem_range.1 (layout.parts.mem_iff.1 there)
    have small := layout.small
    have whole : uint16 vq.freeHead = vq.freeHead := Nat.mod_eq_of_lt (by omega)
    rw [others, whole]
    exact ⟨rfl, rfl, rfl, rfl, rfl, rfl, rfl⟩

theorem Layout.posted (layout : Layout vq free chains) (some_parts : list ≠ []) (fits : list.length ≤ free.length)
    (posted : postChain checked vq list = some vq') :
    Layout vq' (free.drop list.length) (chains ++ [free.take list.length]) ∧
      ∃ head, (free.take list.length).head? = some head ∧ Posted vq vq' head := by
  obtain ⟨chained, count, tail, front, head, first, rings⟩ := postChain_chained layout some_parts fits posted
  refine ⟨?_, head, first, rings⟩
  have distinct : free.Nodup := List.Nodup.of_append_left layout.distinct
  have taken : (free.take list.length).Nodup := distinct.sublist (take_sublist ..)
  -- no old chain has a descriptor of the new one
  have elsewhere : ∀ chain ∈ chains, ∀ i ∈ chain, vq'.desc i = vq.desc i := by
    intro chain among i inChain
    apply chained.outside
    intro inside
    exact layout.apart (mem_of_mem_take inside) among inChain
  constructor
  case small => rw [rings.num]; exact layout.small
  case count => rw [count, layout.count, length_drop]
  case parts =>
    rw [rings.num]
    refine List.Perm.trans ?_ layout.parts
    rw [flatten_append, flatten_singleton, ← append_assoc]
    refine perm_append_comm.trans ?_
    rw [← append_assoc, take_append_drop]
  case linked =>
    rw [chained.link]
    exact List.IsChain.drop layout.linked _
  case head => exact front
  case tail =>
    intro last ends
    rw [getLast?_drop] at ends
    split_ifs at ends
    · cases ends
    · rw [tail]
      exact layout.tail last ends
  case spent =>
    intro empty
    have all := take_of_length_le (drop_eq_nil_iff.1 empty)
    refine ⟨free, by rw [all]; simp, ?_⟩
    cases ends : free.getLast? with
    | none =>
      rw [getLast?_eq_none_iff.1 ends] at fits
      exact absurd (length_eq_zero_iff.1 (Nat.le_zero.1 fits)) some_parts
    | some last => rw [tail, layout.tail last ends]
  case threaded =>
    intro chain among
    rcases mem_append.1 among with old | new
    · refine (layout.threaded chain old).congr (fun i inChain => ?_) fun i _ => by rw [chained.link]
      rw [VringQueue.more, elsewhere chain old i inChain]
      rfl
    rw [mem_singleton.1 new]
    have linked : Linked vq'.link (free.take list.length) := by
      rw [chained.link]
      exact List.IsChain.take layout.linked _
    cases ends : (free.take list.length).getLast? with
    | none =>
      rw [getLast?_eq_none_iff.1 ends] at first
      cases first
    | some last =>
      refine linked.threaded taken ends (chained.last last ends) fun i inside other => chained.more i inside ?_
      rw [ends]
      exact fun same => other (some.inj same).symm
  case direct =>
    intro chain among i inChain
    rcases mem_append.1 among with old | new
    · rw [elsewhere chain old i inChain]
      exact layout.direct chain old i inChain
    · rw [mem_singleton.1 new] at inChain
      exact chained.direct i inChain

end

variable {vq : VringQueue} {free chain : List Nat} {before behind : List (List Nat)} {head : Nat}

structure Cleared (vq vq' : VringQueue) : Prop where
  others : vq' = { vq with desc := vq'.desc, numFree := vq'.numFree }
  link : vq'.link = vq.link
  flags : ∀ i, (vq'.desc i).flags = (vq.desc i).flags

theorem setDesc_flags {i : Nat} {desc : Desc} (same : desc.flags = (vq.desc i).flags) (j : Nat) :
    ((vq.setDesc i desc).desc j).flags = (vq.desc j).flags := by
  by_cases here : j = i
  · rw [here, setDesc_self, same]
  · rw [setDesc_ne vq desc here]

theorem detachLoop_threaded {rest : List Nat} (threaded : Threaded vq.more vq.link (head :: rest)) {fuel : Nat}
    (enough : rest.length + 1 ≤ fuel) :
    ∃ vq' last, detachLoop fuel vq head = some (vq', last) ∧ (head :: rest).getLast? = some last ∧
      vq'.numFree = vq.numFree + rest.length ∧ Cleared vq vq' := by
  induction rest generalizing vq head fuel with
  | nil =>
    obtain ⟨fuel, rfl⟩ := Nat.exists_eq_add_of_le' enough
    have ends : (vq.desc head).flags.next = false := threaded
    have cleared : Cleared vq (vq.setDesc head { vq.desc head with addr := 0 }) :=
      ⟨rfl, setDesc_link rfl, setDesc_flags rfl⟩
    refine ⟨vq.setDesc head { vq.desc head with addr := 0 }, head, ?_, rfl, rfl, cleared⟩
    simp only [length_nil, detachLoop, ends, Bool.false_eq_true, if_false]
  | cons next rest ih =>
    obtain ⟨fuel, rfl⟩ := Nat.exists_eq_add_of_le' (Nat.le_trans (Nat.le_add_left 1 _) enough)
    obtain ⟨more, link, later⟩ := threaded
    have link' : (vq.setDesc head { vq.desc head with addr := 0 }).link = vq.link := setDesc_link rfl
    have flags' : ∀ i, ((vq.setDesc head { vq.desc head with addr := 0 }).desc i).flags = (vq.desc i).flags :=
      setDesc_flags rfl
    have threaded' : Threaded
        (VringQueue.more { vq.setDesc head { vq.desc head with addr := 0 } with numFree := vq.numFree + 1 })
        (VringQueue.link { vq.setDesc head { vq.desc head with addr := 0 } with numFree := vq.numFree + 1 })
        (next :: rest) :=
      later.congr (fun i _ => congrArg DescFlags.next (flags' i)) fun i _ => congrFun link' i
    have short : rest.length + 1 ≤ fuel := by simpa using enough
    obtain ⟨vq', last, loop, ends, count, cleared⟩ := ih threaded' short
    refine ⟨vq', last, ?_, ?_, ?_, ?_, ?_, ?_⟩
    · have go : (vq.desc head).flags.next = true := more
      have behind : (vq.desc head).next = next := link
      rw [detachLoop, if_pos go, behind]
      exact loop
    · rw [getLast?_cons_cons]
      exact ends
    · rw [count, length_cons]
      dsimp only
      omega
    · rw [cleared.others]
      rfl
    · exact cleared.link.trans link'
    · exact fun i => (cleared.flags i).trans (flags' i)

structure SameRings (vq vq' : VringQueue) : Prop where
  num : vq'.num = vq.num
  availIdx : vq'.availIdx = vq.availIdx
  numAdded : vq'.numAdded = vq.numAdded
  availRing : vq'.availRing = vq.availRing
  usedIdx : vq'.usedIdx = vq.usedIdx
  usedRing : vq'.usedRing = vq.usedRing
  lastUsedIdx : vq'.lastUsedIdx = vq.lastUsedIdx

theorem detachBuf_eq {rest : List Nat} (threaded : Threaded vq.more vq.link (head :: rest))
    (direct : (vq.desc head).flags.indirect = false) (short : rest.length + 1 ≤ 2 ^ 16) (start : vq.freeHead ≠ 2 ^ 32 - 1)
    (small : head < 2 ^ 16) :
    ∃ vq', detachBuf vq head = some vq' ∧ SameRings vq vq' ∧ vq'.numFree = vq.numFree + (rest.length + 1) ∧
      vq'.freeHead = vq.freeHead ∧ (head :: rest).getLast? = some vq'.freeTail ∧
      vq'.link = update vq.link vq.freeTail head ∧ ∀ i, (vq'.desc i).flags = (vq.desc i).flags := by
  obtain ⟨mid, last, loop, ends, count, cleared⟩ := detachLoop_threaded threaded short
  have others := cleared.others
  have headed : mid.freeHead = vq.freeHead := by rw [others]
  have tailed : mid.freeTail = vq.freeTail := by rw [others]
  have whole : uint16 head = head := Nat.mod_eq_of_lt small
  refine ⟨{ mid.setDesc mid.freeTail { mid.desc mid.freeTail with next := uint16 head } with
    freeTail := last, numFree := mid.numFree + 1 }, ?_, ?_, ?_, headed, ends, ?_, ?_⟩
  · rw [detachBuf, direct]
    simp only [Bool.false_eq_true, if_false, loop, bind_eq_bind, bind_some, headed, if_neg start]
    rfl
  · rw [others]
    exact ⟨rfl, rfl, rfl, rfl, rfl, rfl, rfl⟩
  · dsimp only
    omega
  · funext j
    rw [tailed, whole]
    by_cases here : j = vq.freeTail
    · rw [here, update_self, VringQueue.link, setDesc_self]
    · rw [update_of_ne here, VringQueue.link, setDesc_ne mid _ here]
      exact congrFun cleared.link j
  · intro i
    have same : ((mid.setDesc mid.freeTail { mid.desc mid.freeTail with next := uint16 head }).desc i).flags =
        (mid.desc i).flags := setDesc_flags (by rfl) i
    exact same.trans (cleared.flags i)

theorem Layout.detached (layout : Layout vq free (before ++ chain :: behind)) (first : chain.head? = some head)
    (orderly : free = [] -> vq.freeHead = head) :
    ∃ vq', detachBuf vq head = some vq' ∧ Layout vq' (free ++ chain) (before ++ behind) ∧ SameRings vq vq' := by
  have among : chain ∈ before ++ chain :: behind := by simp
  have others : ∀ c ∈ before ++ behind, c ∈ before ++ chain :: behind := by
    intro c inside
    rcases mem_append.1 inside with left | right
    · exact mem_append_left _ left
    · exact mem_append_right _ (mem_cons_of_mem _ right)
  have lengths := layout.chain_length among
  have small := layout.small
  have inside : ∀ i ∈ free, i < vq.num := fun i inFree =>
    mem_range.1 (layout.parts.mem_iff.1 (mem_append_left _ inFree))
  obtain ⟨rest, rfl⟩ : ∃ rest, chain = head :: rest := head?_eq_some_iff.1 first
  have below := layout.chain_lt among mem_cons_self
  have start : vq.freeHead < vq.num := by
    cases free with
    | nil => rw [orderly rfl]; exact below
    | cons node tail => rw [layout.head node rfl]; exact inside node mem_cons_self
  obtain ⟨vq', detached, rings, count, headed, ends, link, flags⟩ :=
    detachBuf_eq (layout.threaded _ among) (layout.direct _ among head mem_cons_self)
      (by simp at lengths; omega) (by omega) (by omega)
  -- the only link that changes is that of `free_tail`
  have kept : ∀ c ∈ before ++ (head :: rest) :: behind, ∀ i ∈ c.dropLast, vq'.link i = vq.link i := by
    intro c inChains i inside
    rw [link]
    apply update_of_ne
    rintro rfl
    exact layout.tail_outside inChains inside
  have more : ∀ i, vq'.more i = vq.more i := fun i => congrArg DescFlags.next (flags i)
  refine ⟨vq', detached, ?_, rings⟩
  constructor
  case small => rw [rings.num]; exact small
  case count => rw [count, layout.count, length_append, length_cons]
  case parts =>
    rw [rings.num]
    refine List.Perm.trans ?_ layout.parts
    rw [append_assoc, flatten_append, flatten_append, flatten_cons]
    apply List.Perm.append_left
    rw [← append_assoc, ← append_assoc]
    exact List.Perm.append_right _ perm_append_comm
  case linked =>
    apply List.IsChain.append
    · refine layout.linked.congr fun i inFree => ?_
      rw [link]
      apply update_of_ne
      rintro rfl
      cases last : free.getLast? with
      | none =>
        rw [getLast?_eq_none_iff.1 last] at inFree
        cases inFree
      | some last' =>
        rw [layout.tail last' last] at inFree
        exact Layout.not_mem_dropLast (List.Nodup.of_append_left layout.distinct) last inFree
    · exact (layout.threaded _ among).linked.congr (kept _ among)
    · intro last ends' next starts
      rw [← layout.tail last ends', link, update_self]
      exact some.inj starts
  case head =>
    intro node starts
    rw [headed]
    cases free with
    | nil => rw [orderly rfl]; exact some.inj starts
    | cons other tail => exact layout.head node starts
  case tail =>
    intro node ends'
    rw [getLast?_append, ends] at ends'
    exact some.inj ends'
  case spent =>
    intro empty
    rw [append_eq_nil_iff] at empty
    cases empty.2
  case threaded =>
    intro c inChains
    exact (layout.threaded c (others c inChains)).congr (fun i _ => more i) (kept c (others c inChains))
  case direct =>
    intro c inChains i inside
    rw [flags i]
    exact layout.direct c (others c inChains) i inside

end JinyKernel.Virtio
