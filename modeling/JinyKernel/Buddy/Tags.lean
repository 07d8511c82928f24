import JinyKernel.Buddy.Run

namespace JinyKernel.Buddy

open Dyadic Function List Option

abbrev Tags := Nat -> Option Int

variable (page : Page)

def Page.retag : Option Int -> Page
  | none => page
  | some count => { page with netBuf := true, count := count }

def Mem.retag (mem : Mem) (tags : Tags) : Mem := { mem with page := fun frame => (mem.page frame).retag (tags frame) }

def State.retag (state : State) (tags : Tags) : State := { state with mem := state.mem.retag tags }

theorem Mem.retag_page (mem : Mem) (tags : Tags) (frame : Nat) :
    (mem.retag tags).page frame = (mem.page frame).retag (tags frame) := rfl

section

variable {tags : Tags} {mem : Mem}

@[simp]
theorem Page.retag_dma (tag : Option Int) : (page.retag tag).dma = page.dma := by
  cases tag <;> rfl

@[simp]
theorem Page.retag_referenced (tag : Option Int) : (page.retag tag).referenced = page.referenced := by
  cases tag <;> rfl

theorem Page.retag_refer (tag : Option Int) (referenced : Bool) :
    { page.retag tag with referenced := referenced } = Page.retag { page with referenced := referenced } tag := by
  cases tag <;> rfl

theorem setPage_retag (pages : Pages) (frame : Nat) (page : Page) :
    setPage (fun other => (pages other).retag (tags other)) frame (page.retag (tags frame)) =
      fun other => (setPage pages frame page other).retag (tags other) := by
  funext other
  by_cases same : other = frame
  · subst same
    simp [setPage]
  · simp [setPage, same]

theorem flipReferenced_retag (seen : Bool) (left : Nat) (pages : Pages) (frame : Nat) :
    flipReferenced seen (fun other => (pages other).retag (tags other)) frame left =
      (flipReferenced seen pages frame left).map fun pages other => (pages other).retag (tags other) := by
  induction left generalizing pages frame with
  | zero => rfl
  | succ left ih =>
    rw [flipReferenced, flipReferenced]
    rw [Page.retag_referenced, Page.retag_refer, setPage_retag, ih]
    split <;> rfl

theorem findFree_retag (pages : Pages) (areas : Areas) (newOrder left : Nat) :
    findFree (fun other => (pages other).retag (tags other)) areas newOrder left =
      findFree pages areas newOrder left := by
  induction left generalizing newOrder with
  | zero => rfl
  | succ left ih =>
    simp [findFree, ih]

theorem setCount_retag (pages : Pages) {frame : Nat} (untagged : tags frame = none) (count : Int) :
    setPage (fun other => (pages other).retag (tags other)) frame
        { (pages frame).retag (tags frame) with count := count } =
      fun other => (setPage pages frame { pages frame with count := count } other).retag (tags other) := by
  rw [← setPage_retag, untagged]
  rfl

theorem freePagesOk_retag (mapNr order : Nat) :
    freePagesOk (mem.retag tags) mapNr order = (freePagesOk mem mapNr order).map (Mem.retag · tags) := by
  simp only [freePagesOk, Mem.retag, bind_eq_bind, map_bind]
  rfl

theorem takeBlock_retag {order newOrder entry : Nat}
    (untagged : tags (expand (takeEntry mem.area newOrder entry) entry order (newOrder - order)).2 = none) :
    takeBlock (mem.retag tags) order newOrder entry =
      (takeBlock mem order newOrder entry).map fun taken => (taken.1, taken.2.retag tags) := by
  simp only [takeBlock, Mem.retag, setCount_retag _ untagged, flipReferenced_retag, bind_eq_bind,
    map_bind, bind_map]
  congr 1
  funext pages
  simp only [comp_apply, map_bind]
  rfl

theorem putFreePages_retag {addr : Nat} (order : Nat) (untagged : tags (mapNr addr) = none) :
    putFreePages (mem.retag tags) addr order = (putFreePages mem addr order).map (Mem.retag · tags) := by
  have page : (mem.retag tags).page (mapNr addr) = mem.page (mapNr addr) := by
    rw [Mem.retag_page, untagged]
    rfl
  have counted : { mem.retag tags with
      page := setPage (mem.retag tags).page (mapNr addr)
        { mem.page (mapNr addr) with count := (mem.page (mapNr addr)).count - 1 }
      statFrees := (mem.retag tags).statFrees + 1 } =
      Mem.retag { mem with
        page := setPage mem.page (mapNr addr)
          { mem.page (mapNr addr) with count := (mem.page (mapNr addr)).count - 1 }
        statFrees := mem.statFrees + 1 } tags := by
    have same := setCount_retag mem.page untagged ((mem.page (mapNr addr)).count - 1)
    rw [untagged] at same
    exact congrArg (fun pages => { mem with page := pages, statFrees := mem.statFrees + 1 }) same
  have flipped (freed : Mem) : flipReferenced true (freed.retag tags).page (mapNr addr) (2 ^ order) =
      (flipReferenced true freed.page (mapNr addr) (2 ^ order)).map fun pages other => (pages other).retag (tags other) :=
    flipReferenced_retag ..
  simp only [putFreePages, page, counted, freePagesOk_retag, flipped, bind_eq_bind, map_bind,
    bind_map, comp_def]
  rfl

end

section

variable {region : Nat -> Prop} {tags : Tags} {mem : Mem} {held : List Block}

variable (inv : MemInv region mem held) (owned : ∀ frame, tags frame ≠ none -> ∃ b ∈ held, b.start = frame)

include inv owned

theorem takeBlock_untagged {order newOrder entry : Nat}
    (low : order ≤ newOrder) (high : newOrder < nrMemLists) (queued : entry ∈ (mem.area newOrder).queue) :
    tags (expand (takeEntry mem.area newOrder entry) entry order (newOrder - order)).2 = none := by
  have listed : (⟨newOrder, entry⟩ : Block) ∈ freeBlocks mem.area := (mem_freeBlocks _ _).2 ⟨high, queued⟩
  have taken := (takeEntry_spec mem.area ⟨newOrder, entry⟩ inv.areas listed).1
  obtain ⟨b, -, start, after, -⟩ := expand_spec (newOrder - order) order _ _ taken (by simp only; omega)
  rw [start]
  by_contra tagged
  obtain ⟨c, member, same⟩ := owned _ tagged
  have apart := after.held_first.head_apart (mem_append_right _ member)
  exact apart.not_holds b.holds_start (same ▸ c.holds_start)

theorem getFreePages_retag (gfpMask order : Nat) :
    getFreePages (mem.retag tags) gfpMask order =
      (getFreePages mem gfpMask order).map fun taken => (taken.1, taken.2.retag tags) := by
  have search : findFree (mem.retag tags).page (mem.retag tags).area order (nrMemLists - order) =
      findFree mem.page mem.area order (nrMemLists - order) := findFree_retag ..
  simp only [getFreePages, search]
  split
  · rfl
  cases found : findFree mem.page mem.area order (nrMemLists - order) with
  | none => rfl
  | some place =>
    obtain ⟨low, high, queued⟩ := findFree_spec _ _ _ _ found
    exact takeBlock_retag (takeBlock_untagged inv owned low (by omega) queued)

end

def State.writePage (state : State) (frame : Nat) (page : Page) : State :=
  { state with mem := { state.mem with page := setPage state.mem.page frame page } }

theorem State.writePage_retag (clean : State) (tags : Tags) (frame : Nat) (tag : Option Int) :
    (clean.retag tags).writePage frame ((clean.mem.page frame).retag tag) =
      clean.retag (update tags frame tag) := by
  have pages : setPage (clean.mem.retag tags).page frame ((clean.mem.page frame).retag tag) =
      fun other => (clean.mem.page other).retag (update tags frame tag other) := by
    funext other
    by_cases same : other = frame
    · subst same
      simp [setPage]
    · simp [setPage, same, Mem.retag]
  exact congrArg (fun pages => (⟨{ clean.mem with page := pages }, clean.outstanding⟩ : State)) pages

section

variable {clean : State} {tags : Tags} {frame : Nat}

theorem State.mark_retag (once : (clean.mem.page frame).count = 1) (unmarked : tags frame = none) :
    (clean.retag tags).writePage frame { (clean.retag tags).mem.page frame with netBuf := true } =
      clean.retag (update tags frame (some 1)) := by
  rw [← State.writePage_retag]
  congr 1
  change { (clean.mem.page frame).retag (tags frame) with netBuf := true } = _
  rw [unmarked, Page.retag, Page.retag, ← once]

theorem State.unmark_retag (plain : (clean.mem.page frame).netBuf = false) (once : (clean.mem.page frame).count = 1)
    (marked : tags frame = some 1) :
    (clean.retag tags).writePage frame { (clean.retag tags).mem.page frame with netBuf := false } =
      clean.retag (update tags frame none) := by
  rw [← State.writePage_retag]
  congr 1
  change { (clean.mem.page frame).retag (tags frame) with netBuf := false } = _
  rw [marked, Page.retag, Page.retag, ← once, ← plain]

theorem State.recount_retag {count : Int} (marked : tags frame = some count) (other : Int) :
    (clean.retag tags).writePage frame { (clean.retag tags).mem.page frame with count := other } =
      clean.retag (update tags frame (some other)) := by
  rw [← State.writePage_retag]
  congr 1
  change { (clean.mem.page frame).retag (tags frame) with count := other } = _
  rw [marked, Page.retag, Page.retag]

end

structure Tagged (region : Nat -> Prop) (clean : State) (tags : Tags) : Prop where
  inv : StateInv region clean
  owned : ∀ frame, tags frame ≠ none -> ∃ entry ∈ clean.outstanding, mapNr entry.1 = frame

variable {region : Nat -> Prop} {clean : State} {tags : Tags}

theorem StateInv.frame_unique (inv : StateInv region clean) {entry other : Nat × Nat} {rest : List (Nat × Nat)}
    (first : clean.outstanding.Perm (entry :: rest)) (member : other ∈ rest) : mapNr other.1 ≠ mapNr entry.1 := by
  intro same
  have apart := ((first.map allocation).pairwise_iff Block.Apart.symm).1 inv.held_apart
  have pair := (pairwise_cons.1 apart).1 _ (mem_map_of_mem member)
  have start : (allocation other).start = (allocation entry).start := same
  exact pair.not_holds (allocation entry).holds_start (start ▸ (allocation other).holds_start)

-- What an allocation leaves: nothing new, or a block at an unmarked frame.
structure Fresh (clean next : State) (tags : Tags) (addr order : Nat) : Prop where
  nonzero : addr ≠ 0
  unmarked : tags (mapNr addr) = none
  apart : ∀ entry ∈ clean.outstanding, mapNr entry.1 ≠ mapNr addr
  outstanding : next.outstanding = (addr, order) :: clean.outstanding

theorem Tagged.takePages (tagged : Tagged region clean tags) (gfpMask order : Nat) :
    ∃ addr next, takePages (clean.retag tags) gfpMask order = some (addr, next.retag tags) ∧
      Tagged region next tags ∧
      (addr = 0 ∧ next.outstanding = clean.outstanding ∨ Fresh clean next tags addr order) := by
  obtain ⟨addr, next, taken, after, outcome⟩ := takePages_spec tagged.inv gfpMask order
  have search := getFreePages_retag tagged.inv.mem (fun frame (marked : tags frame ≠ none) => by
    obtain ⟨entry, member, here⟩ := tagged.owned frame marked
    exact ⟨_, mem_map_of_mem member, here⟩) gfpMask order
  refine ⟨addr, next, ?_, ?_, ?_⟩
  · obtain ⟨⟨found, mem⟩, got, rest⟩ := Run.bind_iff.1 taken
    cases rest
    rw [got] at search
    exact bind_eq_some_iff.2 ⟨_, search, rfl⟩
  · refine ⟨after, fun frame marked => ?_⟩
    obtain ⟨entry, member, here⟩ := tagged.owned frame marked
    refine ⟨entry, ?_, here⟩
    rcases outcome with ⟨-, same⟩ | ⟨-, grown⟩
    · rw [same]
      exact member
    · rw [grown]
      exact mem_cons_of_mem _ member
  · rcases outcome with failed | ⟨nonzero, grown⟩
    · exact Or.inl failed
    have apart (entry : Nat × Nat) (member : entry ∈ clean.outstanding) : mapNr entry.1 ≠ mapNr addr :=
      after.frame_unique (List.Perm.of_eq grown) member
    refine Or.inr ⟨nonzero, ?_, apart, grown⟩
    by_contra marked
    obtain ⟨entry, member, here⟩ := tagged.owned _ marked
    exact apart entry member here

theorem Tagged.givePages (tagged : Tagged region clean tags) {addr order : Nat}
    (member : (addr, order) ∈ clean.outstanding) (unmarked : tags (mapNr addr) = none) :
    ∃ next, givePages (clean.retag tags) addr order = some (next.retag tags) ∧ Tagged region next tags ∧
      next.outstanding = clean.outstanding.erase (addr, order) := by
  obtain ⟨next, given, after, shrunk⟩ := givePages_spec tagged.inv member
  refine ⟨next, ?_, ⟨after, fun frame marked => ?_⟩, shrunk⟩
  · obtain ⟨mem, put, rest⟩ := Run.bind_iff.1 given
    cases rest
    refine bind_eq_some_iff.2 ⟨mem.retag tags, ?_, rfl⟩
    exact (putFreePages_retag order unmarked).trans (congrArg (Option.map (Mem.retag · tags)) put)
  obtain ⟨entry, inside, here⟩ := tagged.owned frame marked
  refine ⟨entry, ?_, here⟩
  rw [shrunk]
  refine (mem_erase_of_ne fun same => ?_).2 inside
  rw [same] at here
  rw [← here] at marked
  exact marked unmarked

end JinyKernel.Buddy
