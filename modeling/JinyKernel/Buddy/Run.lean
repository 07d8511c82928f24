import JinyKernel.Buddy.Boot
import JinyKernel.Shared.Run

namespace JinyKernel.Buddy

open Dyadic List Option Run

structure State where
  mem : Mem
  outstanding : List (Nat × Nat)

inductive Event where
  | getFreePages (gfpMask order : Nat)
  | putFreePages (addr order : Nat)

variable (state : State)

def takePages (gfpMask order : Nat) : Option (Nat × State) := do
  let (addr, mem) ← getFreePages state.mem gfpMask order
  some (addr, ⟨mem, if addr = 0 then state.outstanding else (addr, order) :: state.outstanding⟩)

def givePages (addr order : Nat) : Option State := do
  let mem ← putFreePages state.mem addr order
  some ⟨mem, state.outstanding.erase (addr, order)⟩

def step : Event -> Option State
  | .getFreePages gfpMask order => (takePages state gfpMask order).map Prod.snd
  | .putFreePages addr order => givePages state addr order

def Allowed : Event -> Prop
  | .getFreePages _ order => order < nrMemLists
  | .putFreePages addr order => (addr, order) ∈ state.outstanding

def Boot.Start (boot : Boot) (state : State) : Prop := boot.mem = some state.mem ∧ state.outstanding = []

abbrev Boot.Reaches (boot : Boot) (state : State) : Prop := Reachable boot.Start step Allowed state

def allocation (entry : Nat × Nat) : Block := ⟨entry.2, mapNr entry.1⟩

def State.held : List Block := state.outstanding.map allocation

def State.listed : List Block := freeBlocks state.mem.area

structure StateInv (region : Nat -> Prop) (state : State) : Prop where
  mem : MemInv region state.mem state.held
  direct : ∀ entry ∈ state.outstanding, entry.1 = address (mapNr entry.1)

variable {frame order : Nat} {region : Nat -> Prop} {state : State}

theorem address_ne_zero (below : frame < frameLimit) : address frame ≠ 0 := by
  rw [address_eq below]
  simp only [kaddrspaceStart]
  omega

section

variable (inv : StateInv region state)

include inv

theorem StateInv.held_apart : state.held.Pairwise Block.Apart :=
  (pairwise_append.1 inv.mem.areas.tiling.apart).2.1

theorem StateInv.below {entry : Nat × Nat} (member : entry ∈ state.outstanding) : mapNr entry.1 < frameLimit := by
  have held : allocation entry ∈ state.held := mem_map_of_mem member
  have released := inv.mem.areas.tiling.within (mem_append_right _ held) _ (allocation entry).holds_start
  exact (inv.mem.below _ released).trans inv.mem.limit

theorem takePages_spec (gfpMask order : Nat) :
    ∃ addr next, takePages state gfpMask order = some (addr, next) ∧ StateInv region next ∧
      (addr = 0 ∧ next.outstanding = state.outstanding ∨
        addr ≠ 0 ∧ next.outstanding = (addr, order) :: state.outstanding) := by
  rcases getFreePages_spec inv.mem gfpMask order with failed | ⟨b, areas, sameOrder, after, taken⟩
  · refine ⟨0, ⟨{ state.mem with statAllocs := state.mem.statAllocs + 1 }, state.outstanding⟩, ?_, ?_, .inl ⟨rfl, rfl⟩⟩
    · simp [takePages, failed]
    · have mem := inv.mem
      exact ⟨{ mem with },
        inv.direct⟩
  have claimed := inv.mem.claim after
  have below := claimed.held_below.trans inv.mem.limit
  have isBlock : allocation (address b.start, order) = b := by
    rw [allocation, mapNr_address below, ← sameOrder]
  refine ⟨address b.start, ⟨state.mem.claimed b areas, (address b.start, order) :: state.outstanding⟩, ?_, ⟨?_, ?_⟩,
    .inr ⟨address_ne_zero below, rfl⟩⟩
  · simp [takePages, taken, address_ne_zero below]
  · rw [State.held, map_cons, isBlock]
    exact claimed
  intro entry member
  rcases mem_cons.1 member with rfl | old
  · rw [mapNr_address below]
  · exact inv.direct entry old

theorem givePages_spec {addr : Nat} (member : (addr, order) ∈ state.outstanding) :
    ∃ next, givePages state addr order = some next ∧ StateInv region next ∧
      next.outstanding = state.outstanding.erase (addr, order) := by
  have perm : state.held.Perm (allocation (addr, order) :: (state.outstanding.erase (addr, order)).map allocation) :=
    (perm_cons_erase member).map allocation
  have mem := inv.mem.perm perm
  obtain ⟨areas, after, freed⟩ := putFreePages_spec mem addr rfl
  refine ⟨⟨state.mem.released _ areas, state.outstanding.erase (addr, order)⟩, ?_, ⟨mem.release after, ?_⟩, rfl⟩
  · change (putFreePages state.mem addr order).bind _ = _
    exact congrArg (Option.bind · _) freed
  · exact fun entry kept => inv.direct entry (mem_of_mem_erase kept)

end

theorem Boot.Reaches.inv {boot : Boot} (reached : boot.Reaches state) :
    StateInv boot.Released state ∧ ∀ event, Allowed state event -> (step state event).isSome := by
  refine Reachable.progress ?_ ?_ reached
  · rintro start ⟨released, free⟩
    obtain ⟨mem, run, inv⟩ := boot.mem_spec
    cases run.symm.trans released
    refine ⟨by simpa [State.held, free] using inv, by simp [free]⟩
  intro current event inv allowed
  cases event with
  | getFreePages gfpMask order =>
    obtain ⟨addr, next, taken, after, -⟩ := takePages_spec inv gfpMask order
    exact ⟨next, by simp [step, taken], after⟩
  | putFreePages addr order =>
    obtain ⟨next, given, after, -⟩ := givePages_spec inv allowed
    exact ⟨next, given, after⟩

theorem reachable_tiles_released (boot : Boot) :
    (∃ mem, boot.mem = some mem) ∧ ∀ state, boot.Reaches state ->
      (∀ order frame, order < nrMemLists -> frame ∈ (state.mem.area order).queue -> 2 ^ order ∣ frame) ∧
      (state.listed ++ state.held).Pairwise Block.Apart ∧
      (∀ frame, boot.Released frame ↔ ∃ b ∈ state.listed ++ state.held, b.Holds frame) ∧
      (∀ order index, order < nrMemLists - 1 ->
        (state.mem.area order).map index =
          (decide (2 * index * 2 ^ order ∈ (state.mem.area order).queue) ^^
            decide ((2 * index + 1) * 2 ^ order ∈ (state.mem.area order).queue))) ∧
      state.mem.nrFreePages = ((state.listed.map Block.size).sum : Nat) ∧
      ∀ event, Allowed state event -> (step state event).isSome := by
  refine ⟨boot.mem_spec.imp fun _ spec => spec.1, ?_⟩
  intro state reached
  obtain ⟨inv, progress⟩ := reached.inv
  have tiling := inv.mem.areas.tiling
  refine ⟨?_, tiling.apart, tiling.covers, ?_, inv.mem.nrFree, progress⟩
  · intro order frame below queued
    exact tiling.aligned ⟨order, frame⟩ (mem_append_left _ ((mem_freeBlocks _ _).2 ⟨below, queued⟩))
  intro order index below
  have inRange : order < nrMemLists := by omega
  have bit := inv.mem.areas.paired order index below
  simpa [areaBits, mem_freeBlocks, Block.left, Block.right, inRange] using bit

def twoPages : Boot where
  phyMemSize := 0x6000
  maxMapNr := 6
  available := [address 4, address 5]
  visited := [address 4, address 5]
  limit := by decide
  backed := by decide
  below := by decide
  once := by decide

def twoPagesTaken : Option State := twoPages.mem.bind fun mem => step ⟨mem, []⟩ (.getFreePages 0 0)

theorem twoPages_reaches : ∃ state, twoPages.Reaches state ∧ state.outstanding = [(address 5, 0)] := by
  have outcome : twoPagesTaken.map State.outstanding = some [(address 5, 0)] := by decide +kernel
  obtain ⟨state, run, outstanding⟩ := map_eq_some_iff.1 outcome
  obtain ⟨mem, booted, taken⟩ := bind_iff.1 run
  have started : twoPages.Reaches ⟨mem, []⟩ := .start ⟨booted, rfl⟩
  have allowed : Allowed ⟨mem, []⟩ (.getFreePages 0 0) := (by decide : 0 < nrMemLists)
  exact ⟨state, started.next allowed taken, outstanding⟩

theorem reachable_tiles_released_twoPages :
    ∃ state, twoPages.Reaches state ∧ state.outstanding = [(address 5, 0)] ∧
      (state.listed ++ state.held).Pairwise Block.Apart ∧
      state.mem.nrFreePages = ((state.listed.map Block.size).sum : Nat) := by
  obtain ⟨state, reached, outstanding⟩ := twoPages_reaches
  obtain ⟨-, apart, -, -, total, -⟩ := (reachable_tiles_released twoPages).2 state reached
  exact ⟨state, reached, outstanding, apart, total⟩

def State.Free (state : State) (frame : Nat) : Prop := ∃ b ∈ state.listed, b.Holds frame

theorem StateInv.free_tiling (inv : StateInv region state) : Tiling state.Free state.listed where
  aligned b member := inv.mem.areas.tiling.aligned b (List.mem_append_left _ member)
  apart := (List.pairwise_append.1 inv.mem.areas.tiling.apart).1
  covers _ := Iff.rfl

theorem mem_listed (below : order < nrMemLists) :
    (⟨order, frame⟩ : Block) ∈ state.listed ↔ frame ∈ (state.mem.area order).queue := by
  simp [State.listed, mem_freeBlocks, below]

theorem StateInv.queue_eq {region' : Nat -> Prop} {state' : State} (inv : StateInv region state)
    (inv' : StateInv region' state') (same : ∀ frame, state.Free frame ↔ state'.Free frame)
    (below : order < nrMemLists) : frame ∈ (state.mem.area order).queue ↔ frame ∈ (state'.mem.area order).queue := by
  have regions := funext fun frame => propext (same frame)
  rw [← mem_listed below, ← mem_listed below]
  exact inv.free_tiling.unique inv.mem.areas.coalesced
    (fun b member => inv.mem.areas.bounded b (mem_append_left _ member)) (regions ▸ inv'.free_tiling)
    inv'.mem.areas.coalesced (fun b member => inv'.mem.areas.bounded b (mem_append_left _ member)) _

theorem StateInv.free_iff (inv : StateInv region state) (unheld : state.outstanding = []) (frame : Nat) :
    state.Free frame ↔ region frame := by
  have covers := inv.mem.areas.tiling.covers frame
  simp only [State.held, unheld, map_nil, append_nil] at covers
  exact covers.symm

theorem free_lists_path_independent (boot boot' : Boot) (state state' : State) (reached : boot.Reaches state)
    (reached' : boot'.Reaches state') :
    ((∀ frame, state.Free frame ↔ state'.Free frame) -> ∀ order frame, order < nrMemLists ->
      (frame ∈ (state.mem.area order).queue ↔ frame ∈ (state'.mem.area order).queue)) ∧
    (∀ order index, order < nrMemLists - 1 -> ¬ (2 * index * 2 ^ order ∈ (state.mem.area order).queue ∧
      (2 * index + 1) * 2 ^ order ∈ (state.mem.area order).queue)) ∧
    ∀ start, boot.Start start -> state.outstanding = [] -> ∀ order frame, order < nrMemLists ->
      (frame ∈ (state.mem.area order).queue ↔ frame ∈ (start.mem.area order).queue) := by
  obtain ⟨inv, -⟩ := reached.inv
  obtain ⟨inv', -⟩ := reached'.inv
  refine ⟨fun same order frame => inv.queue_eq inv' same, ?_, ?_⟩
  · rintro order index below ⟨hasLeft, hasRight⟩
    have inRange : order < nrMemLists := by omega
    exact inv.mem.areas.coalesced order index below ⟨(mem_listed inRange).2 hasLeft, (mem_listed inRange).2 hasRight⟩
  intro start first idle order frame
  have atStart : boot.Reaches start := .start first
  obtain ⟨invStart, -⟩ := atStart.inv
  apply inv.queue_eq invStart
  intro free
  rw [inv.free_iff idle, invStart.free_iff first.2]

theorem free_lists_path_independent_twoPages :
    ∃ state, twoPages.Reaches state ∧ state.outstanding = [(address 5, 0)] ∧
      ¬ (4 ∈ (state.mem.area 0).queue ∧ 5 ∈ (state.mem.area 0).queue) := by
  obtain ⟨state, reached, outstanding⟩ := twoPages_reaches
  have parts := free_lists_path_independent twoPages twoPages state state reached reached
  exact ⟨state, reached, outstanding, parts.2.1 0 2 (by decide)⟩

theorem StateInv.free_unheld (inv : StateInv region state) (frame : Nat) :
    state.Free frame ↔ region frame ∧ ∀ b ∈ state.held, ¬ b.Holds frame := by
  have tiling := inv.mem.areas.tiling
  have apart := (pairwise_append.1 tiling.apart).2.2
  constructor
  · rintro ⟨b, listed, inside⟩
    exact ⟨tiling.within (mem_append_left _ listed) frame inside, fun other held =>
      (apart b listed other held).not_holds inside⟩
  rintro ⟨released, unheld⟩
  obtain ⟨b, member, inside⟩ := (tiling.covers frame).1 released
  rcases mem_append.1 member with listed | held
  · exact ⟨b, listed, inside⟩
  · exact absurd inside (unheld b held)

theorem StateInv.takePages_failed {next : State} (inv : StateInv region state) {gfpMask : Nat}
    (failed : takePages state gfpMask order = some (0, next)) {b : Block} (listed : b ∈ state.listed)
    (large : order ≤ b.order) : False := by
  obtain ⟨height, queued⟩ := (mem_freeBlocks _ _).1 listed
  have below : ¬ nrMemLists ≤ order := by omega
  rw [takePages, getFreePages, if_neg below] at failed
  cases search : findFree state.mem.page state.mem.area order (nrMemLists - order) with
  | none =>
    have released := inv.mem.areas.tiling.within (mem_append_left _ listed) _ b.holds_start
    have masked := findFree_none _ _ _ _ search large (by omega) queued
    rw [(inv.mem.ordinary _ released).2.2.1] at masked
    cases masked
  | some found =>
    obtain ⟨low, high, entered⟩ := findFree_spec _ _ _ _ search
    obtain ⟨c, areas, -, after, taken⟩ := takeBlock_spec inv.mem low (by omega) entered
    have start : c.start < frameLimit := (inv.mem.claim after).held_below.trans inv.mem.limit
    simp [search, taken, address_ne_zero start] at failed

theorem getFreePages_complete (boot : Boot) (state : State) (reached : boot.Reaches state) (gfpMask order : Nat)
    (valid : order < nrMemLists) :
    (∀ frame, state.Free frame ↔ boot.Released frame ∧ ∀ b ∈ state.held, ¬ b.Holds frame) ∧
    ∃ addr next, takePages state gfpMask order = some (addr, next) ∧
      (addr = 0 ↔ ¬ ∃ b : Block, b.order = order ∧ b.Aligned ∧ b.Within state.Free) ∧
      (addr = 0 -> ∀ frame, next.Free frame ↔ state.Free frame) ∧
      (addr ≠ 0 -> ∃ b : Block, b.order = order ∧ b.Aligned ∧ b.Within state.Free ∧ addr = address b.start ∧
        ∀ frame, next.Free frame ↔ state.Free frame ∧ ¬ b.Holds frame) := by
  obtain ⟨inv, -⟩ := reached.inv
  refine ⟨inv.free_unheld, ?_⟩
  obtain ⟨addr, next, taken, after, outcome⟩ := takePages_spec inv gfpMask order
  refine ⟨addr, next, taken, ?_⟩
  rcases outcome with ⟨rfl, same⟩ | ⟨nonzero, more⟩
  · refine ⟨⟨?_, fun _ => rfl⟩, fun _ frame => ?_, fun nonzero => absurd rfl nonzero⟩
    · rintro - ⟨b, height, aligned, inside⟩
      -- Free lists are coalesced, so a free run lies inside one listed block.
      obtain ⟨c, listed, large, -⟩ := inv.free_tiling.encloses inv.mem.areas.coalesced order b height
        (by omega) aligned inside
      exact inv.takePages_failed taken listed (height ▸ large)
    · rw [after.free_unheld, inv.free_unheld, State.held, State.held, same]
  have held : next.held = allocation (addr, order) :: state.held := by rw [State.held, more]; rfl
  have freed (frame : Nat) : next.Free frame ↔ state.Free frame ∧ ¬ (allocation (addr, order)).Holds frame := by
    rw [after.free_unheld, inv.free_unheld, held, forall_mem_cons]
    tauto
  have within : (allocation (addr, order)).Within state.Free := by
    intro frame inside
    have tiling := after.mem.areas.tiling
    rw [held] at tiling
    refine (inv.free_unheld frame).2 ⟨tiling.within (by simp) frame inside, fun other member => ?_⟩
    have apart := (pairwise_cons.1 (pairwise_append.1 tiling.apart).2.1).1 other member
    exact apart.not_holds inside
  have aligned : (allocation (addr, order)).Aligned :=
    after.mem.areas.tiling.aligned _ (by simp [held])
  refine ⟨⟨fun zero => absurd zero nonzero, fun free => ?_⟩, fun zero => absurd zero nonzero, fun _ => ?_⟩
  · exact absurd ⟨_, rfl, aligned, within⟩ free
  · exact ⟨_, rfl, aligned, within, after.direct (addr, order) (by simp [more]), freed⟩

theorem getFreePages_complete_twoPages :
    ∃ state next, twoPages.Reaches state ∧ takePages state 0 1 = some (address 4, next) ∧
      (∃ b : Block, b.order = 1 ∧ b.Aligned ∧ b.Within state.Free ∧ address 4 = address b.start) := by
  have outcome : (twoPages.mem.bind fun mem => (takePages ⟨mem, []⟩ 0 1).map Prod.fst) = some (address 4) := by
    decide +kernel
  obtain ⟨mem, booted, run⟩ := bind_iff.1 outcome
  obtain ⟨⟨addr, next⟩, taken, rfl⟩ := map_eq_some_iff.1 run
  have started : twoPages.Reaches ⟨mem, []⟩ := .start ⟨booted, rfl⟩
  obtain ⟨-, addr', next', taken', -, -, got⟩ := getFreePages_complete twoPages _ started 0 1 (by decide)
  rw [taken] at taken'
  cases taken'
  obtain ⟨b, height, aligned, free, start, -⟩ := got (address_ne_zero (by decide))
  exact ⟨_, next, started, taken, b, height, aligned, free, start⟩

theorem give_undoes_take (boot : Boot) (state : State) (reached : boot.Reaches state) (gfpMask order : Nat) :
    ∃ addr next, takePages state gfpMask order = some (addr, next) ∧ (addr ≠ 0 ->
      ∃ last, givePages next addr order = some last ∧ ∀ k frame, k < nrMemLists ->
        (frame ∈ (last.mem.area k).queue ↔ frame ∈ (state.mem.area k).queue)) := by
  obtain ⟨inv, -⟩ := reached.inv
  obtain ⟨addr, next, taken, after, outcome⟩ := takePages_spec inv gfpMask order
  refine ⟨addr, next, taken, fun got => ?_⟩
  have more := (outcome.resolve_left fun failed => got failed.1).2
  obtain ⟨last, given, back, erased⟩ := givePages_spec after (more ▸ mem_cons_self)
  refine ⟨last, given, fun k frame => back.queue_eq inv fun free => ?_⟩
  -- every other released frame is free
  rw [back.free_unheld, inv.free_unheld, State.held, State.held, erased, more, erase_cons_head]

theorem give_undoes_take_twoPages : ∃ state addr next, twoPages.Reaches state ∧
    takePages state 0 0 = some (addr, next) ∧ (addr ≠ 0 -> (givePages next addr 0).isSome) := by
  obtain ⟨state, reached, -⟩ := twoPages_reaches
  obtain ⟨addr, next, taken, undone⟩ := give_undoes_take twoPages state reached 0 0
  exact ⟨state, addr, next, reached, taken, fun got =>
    isSome_iff_exists.2 ((undone got).imp fun _ => And.left)⟩

end JinyKernel.Buddy
