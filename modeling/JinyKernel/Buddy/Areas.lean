import JinyKernel.Buddy.Model
import JinyKernel.Shared.Buddies

namespace JinyKernel.Buddy

open Dyadic Function List

variable (areas : Areas)

def freeBlocks : List Block :=
  (List.range nrMemLists).flatMap fun order => (areas order).queue.map (Block.mk order)

def areaBits (order index : Nat) : Bool := (areas order).map index

def listedPages : Nat := ((freeBlocks areas).map Block.size).sum

-- A buddy system over the released frames; `held` are the blocks on no list.
def AreasInv (region : Nat -> Prop) (areas : Areas) (held : List Block) : Prop :=
  System (nrMemLists - 1) region (areaBits areas) (freeBlocks areas) held

variable (b : Block)

theorem mem_freeBlocks : b ∈ freeBlocks areas ↔ b.order < nrMemLists ∧ b.start ∈ (areas b.order).queue := by
  simp only [freeBlocks, mem_flatMap, mem_range, mem_map]
  constructor
  · rintro ⟨order, below, start, member, rfl⟩
    exact ⟨below, member⟩
  · rintro ⟨below, member⟩
    exact ⟨b.order, below, b.start, member, rfl⟩

theorem flatMap_perm {α β : Type} [DecidableEq α] (before after : α -> List β) (key : α) (extra : β) :
    ∀ keys : List α, keys.Nodup -> key ∈ keys -> (∀ other, other ≠ key -> after other = before other) ->
      (after key).Perm (extra :: before key) ->
        (keys.flatMap after).Perm (extra :: keys.flatMap before) := by
  intro keys distinct member same grown
  induction keys with
  | nil => simp at member
  | cons head rest ih =>
    have split := nodup_cons.1 distinct
    by_cases here : head = key
    · subst here
      have others := flatMap_congr fun other inRest => same other fun eq => split.1 (eq ▸ inRest)
      simp only [flatMap_cons, others]
      exact grown.append_right _
    · have inRest : key ∈ rest := (mem_cons.1 member).resolve_left (Ne.symm here)
      simp only [flatMap_cons, same head here]
      exact ((ih split.2 inRest).append_left _).trans perm_middle

variable (area : FreeArea)

theorem freeBlocks_update (below : b.order < nrMemLists)
    (grown : area.queue.Perm (b.start :: (areas b.order).queue)) :
    (freeBlocks (update areas b.order area)).Perm (b :: freeBlocks areas) := by
  apply flatMap_perm _ _ b.order b _ nodup_range (mem_range.2 below)
  · intro other different
    simp [different]
  · simpa using grown.map (Block.mk b.order)

theorem freeBlocks_remove (below : b.order < nrMemLists)
    (shrunk : (areas b.order).queue.Perm (b.start :: area.queue)) :
    (freeBlocks areas).Perm (b :: freeBlocks (update areas b.order area)) := by
  have back := freeBlocks_update (update areas b.order area) b (areas b.order) below (by simpa using shrunk)
  simpa using back

theorem listedPages_perm {areas areas' : Areas} {b : Block}
    (perm : (freeBlocks areas').Perm (b :: freeBlocks areas)) :
    listedPages areas' = listedPages areas + b.size := by
  rw [listedPages, (perm.map Block.size).sum_eq, map_cons, sum_cons, listedPages, Nat.add_comm]

theorem areaBits_toggle (toggled : area.map = (changeBit (areas b.order) b.pair).map) :
    areaBits (update areas b.order area) = toggle (areaBits areas) b := by
  funext order index
  by_cases here : order = b.order
  · subst here
    by_cases same : index = b.pair <;>
      simp [areaBits, toggle, toggled, changeBit, same]
  · simp [areaBits, toggle, here]

theorem areaBits_update (same : area.map = (areas b.order).map) :
    areaBits (update areas b.order area) = areaBits areas := by
  funext order index
  by_cases here : order = b.order
  · subst here
    simp [areaBits, same]
  · simp [areaBits, here]

theorem pair_parent : b.parent.pair = b.pair / 2 := by
  have order : 2 ^ (b.parent.order + 1) = 2 ^ (b.order + 1) * 2 := Nat.pow_succ ..
  rw [Block.pair, order]
  simp only [Block.parent, Block.whole]
  rw [Nat.mul_comm, Nat.mul_div_mul_left _ _ (Nat.two_pow_pos _)]

variable {region : Nat -> Prop} {held : List Block}

theorem coalesce_spec (left : Nat) (areas : Areas) (b : Block) (inv : AreasInv region areas (b :: held))
    (height : b.order + left = nrMemLists - 1) :
    ∃ areas', coalesce areas b.start b.order b.pair left = some areas' ∧ AreasInv region areas' held ∧
      listedPages areas' = listedPages areas + b.size := by
  induction left generalizing areas b with
  | zero =>
    have below : b.order < nrMemLists := by simp only [nrMemLists] at *; omega
    have perm := freeBlocks_update areas b (addMemQueue (areas b.order) b.start) below (List.Perm.refl _)
    refine ⟨_, rfl, ?_, listedPages_perm perm⟩
    refine (inv.giveTop height).congr perm.symm (List.Perm.refl _) fun order index _ => ?_
    rw [areaBits_update areas b (addMemQueue (areas b.order) b.start) rfl]
  | succ left ih =>
    have below : b.order < nrMemLists - 1 := by omega
    have listed : b.order < nrMemLists := by omega
    have bit : (areas b.order).map b.pair = decide (b.buddy ∈ freeBlocks areas) := inv.held_bit below
    by_cases member : b.buddy ∈ freeBlocks areas
    · -- The buddy is free: both leave this order and their parent is in hand.
      have queued : b.buddy.start ∈ (areas b.order).queue := ((mem_freeBlocks areas b.buddy).1 member).2
      set area : FreeArea := { changeBit (areas b.order) b.pair with
        queue := (areas b.order).queue.erase b.buddy.start
        statCount := ((areas b.order).statCount + 2 ^ 32 - 1) % 2 ^ 32 } with areaDef
      have removed : removeMemQueue (changeBit (areas b.order) b.pair) (b.start ^^^ 2 ^ b.order) = some area := by
        exact if_pos queued
      have perm := freeBlocks_remove areas b.buddy area listed (perm_cons_erase queued)
      have merged : AreasInv region (update areas b.order area) (b.parent :: held) := by
        have system := (inv.congr perm (List.Perm.refl _) fun _ _ _ => rfl).merge below
        rwa [AreasInv, areaBits_toggle areas b area rfl]
      obtain ⟨areas', computed, after, pages⟩ := ih (update areas b.order area) b.parent merged
        (by simp only [Block.parent, Block.whole]; omega)
      refine ⟨areas', ?_, after, ?_⟩
      · rw [pair_parent] at computed
        simp only [coalesce, bit, member, decide_true, if_true, removed]
        exact computed
      have sizes : b.parent.size = b.size + b.size := by
        simp only [Block.size, Block.parent, Block.whole, Nat.pow_succ]
        omega
      have counted : listedPages areas = listedPages (update areas b.order area) + b.buddy.size :=
        listedPages_perm perm
      have same : b.buddy.size = b.size := rfl
      omega
    · set area := addMemQueue (changeBit (areas b.order) b.pair) b.start with areaDef
      have perm := freeBlocks_update areas b area listed (List.Perm.refl _)
      refine ⟨update areas b.order area, ?_, ?_, listedPages_perm perm⟩
      · simp [coalesce, bit, member, areaDef]
      · have unset : areaBits areas b.order b.pair = false := by simp [areaBits, bit, member]
        refine (inv.give below unset).congr perm.symm (List.Perm.refl _) fun order index _ => ?_
        rw [areaBits_toggle areas b area rfl]

theorem takeEntry_spec (inv : AreasInv region areas held) (member : b ∈ freeBlocks areas) :
    AreasInv region (takeEntry areas b.order b.start) (b :: held) ∧
      listedPages areas = listedPages (takeEntry areas b.order b.start) + b.size := by
  obtain ⟨below, queued⟩ := (mem_freeBlocks areas b).1 member
  have perm := freeBlocks_remove areas b
    { changeBit (areas b.order) (b.start / 2 ^ (1 + b.order)) with
      queue := (areas b.order).queue.erase b.start
      statCount := ((areas b.order).statCount + 2 ^ 32 - 1) % 2 ^ 32 } below (perm_cons_erase queued)
  refine ⟨?_, listedPages_perm perm⟩
  have taken := (inv.congr perm (List.Perm.refl _) fun _ _ _ => rfl).take
  refine taken.congr (List.Perm.refl _) (List.Perm.refl _) fun order index _ => ?_
  rw [takeEntry, areaBits_toggle areas b _ (by rw [Nat.add_comm]; rfl)]

theorem expand_spec (steps low : Nat) (areas : Areas) (b : Block) (inv : AreasInv region areas (b :: held))
    (height : b.order = low + steps) : ∃ c : Block, c.order = low ∧ (expand areas b.start low steps).2 = c.start ∧
      AreasInv region (expand areas b.start low steps).1 (c :: held) ∧
        listedPages (expand areas b.start low steps).1 + c.size = listedPages areas + b.size := by
  induction steps generalizing areas b with
  | zero => exact ⟨b, height, rfl, inv, rfl⟩
  | succ steps ih =>
    have isWhole := inv.held_aligned.eq_whole (low + steps) height
    generalize hi : b.start / 2 ^ (low + steps + 1) = index at isWhole
    have bounded : low + steps < nrMemLists - 1 := by
      have := inv.held_bounded
      omega
    have listed : low + steps < nrMemLists := by omega
    set lower := Block.left (low + steps) index with lowerDef
    have starts : b.start = lower.start := by
      rw [isWhole, lowerDef]
      simp only [Block.whole, Block.left]
      ring
    set area := changeBit (addMemQueue (areas (low + steps)) b.start) lower.pair with areaDef
    have marked : markUsed (update areas (low + steps) (addMemQueue (areas (low + steps)) b.start))
        b.start (low + steps) = update areas (low + steps) area := by
      have pair : b.start / 2 ^ (1 + (low + steps)) = lower.pair := by
        rw [starts, Nat.add_comm]
        rfl
      simp only [markUsed, pair, update_self, update_idem, areaDef]
    have perm : (freeBlocks (update areas (low + steps) area)).Perm (lower :: freeBlocks areas) :=
      freeBlocks_update areas lower area listed (by rw [← starts]; exact List.Perm.refl _)
    have bits : areaBits (update areas (low + steps) area) = toggle (areaBits areas) lower :=
      areaBits_toggle areas lower area rfl
    have split : AreasInv region (update areas (low + steps) area)
        (Block.right (low + steps) index :: held) := by
      rw [isWhole] at inv
      exact (System.split inv).congr perm.symm (List.Perm.refl _) fun order i _ => by rw [bits]
    have next : b.start + 2 ^ (low + steps) = (Block.right (low + steps) index).start := by
      rw [starts, lowerDef]
      simp only [Block.left, Block.right]
      ring
    obtain ⟨c, order, start, after, pages⟩ := ih _ _ split rfl
    refine ⟨c, order, ?_, ?_, ?_⟩
    · simpa only [expand, marked, next] using start
    · simpa only [expand, marked, next] using after
    have counted := listedPages_perm perm
    have halves : b.size = lower.size + (Block.right (low + steps) index).size := by
      rw [isWhole]
      simp only [Block.size, Block.whole, lowerDef, Block.left, Block.right, Nat.pow_succ]
      omega
    simp only [expand, marked, next]
    omega

end JinyKernel.Buddy
