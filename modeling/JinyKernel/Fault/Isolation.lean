import JinyKernel.Fault.Model
import JinyKernel.Vm.Run

namespace JinyKernel.Fault

open Paging Vm List Option Run

-- A writable area with `MAP_FIXED` and without `MAP_ANONYMOUS` has a file behind it.
def Backed (vma : Vma) : Prop :=
  vma.vmProt &&& protWrite ≠ 0 -> vma.vmFlags &&& mapAnonymous = 0 -> vma.vmFlags &&& mapFixed ≠ 0 -> vma.vmInode ≠ none

structure Inv (elsewhere : Nat -> Prop) (space : Space) : Prop where
  pool : ∀ frame ∈ space.paging.pool, frame < 2 ^ 40 ∧ ¬ elsewhere frame
  blocks : ∀ hp ∈ space.blocks, ∀ frame ∈ List.range' hp 512, frame < 2 ^ 40 ∧ ¬ elsewhere frame
  owned : ∀ frame ∈ space.owned, ¬ elsewhere frame
  leaves : ∀ leaf ∈ space.leaves, writable leaf.2 = true -> ∀ frame ∈ pagesOf leaf.1 leaf.2, frame ∈ space.owned

theorem frameOf_mkPte {frame : Nat} (small : frame < 2 ^ 40) (global user rw : Bool) :
    frameOf (mkPte frame global user rw) = frame := by
  rw [frameOf, mkPte, Nat.mod_eq_of_lt small]
  cases global <;> cases user <;> cases rw <;> simp only [Bool.toNat_true, Bool.toNat_false, pageSize] <;> omega

theorem frameOf_mkPde {frame : Nat} (small : frame < 2 ^ 40) (largePage global user : Bool) :
    frameOf (mkPde frame largePage global user) = frame := by
  rw [frameOf, mkPde, Nat.mod_eq_of_lt small]
  cases largePage <;> cases global <;> cases user <;> simp only [Bool.toNat_true, Bool.toNat_false, pageSize] <;> omega

theorem readOnly_mkPte (frame : Nat) (global user : Bool) : writable (mkPte frame global user false) = false := by
  rw [writable, decide_eq_false_iff_not, mkPte]
  cases global <;> cases user <;> simp only [Bool.toNat_true, Bool.toNat_false, pageSize] <;> omega

section

variable {elsewhere : Nat -> Prop} {user : Bool} {space next : Space} {frame : Nat}

variable (inv : Inv elsewhere space)

include inv

theorem Inv.alloc (got : Fault.alloc user space = some (frame, next)) :
    Inv elsewhere next ∧ frame < 2 ^ 40 ∧ (user = true -> frame ∈ next.owned) := by
  simp only [Fault.alloc, mmPagealloc] at got
  cases supply : space.paging.pool with
  | nil => simp [supply] at got
  | cons first rest =>
    have fresh := inv.pool
    rw [supply, forall_mem_cons] at fresh
    simp only [supply, some_bind] at got
    cases user with
    | true =>
      cases got
      refine ⟨⟨fresh.2, inv.blocks, ?_, ?_⟩, fresh.1.1, fun _ => mem_cons_self⟩
      · exact forall_mem_cons.2 ⟨fresh.1.2, inv.owned⟩
      · exact fun leaf member may other mapped => mem_cons_of_mem _ (inv.leaves leaf member may other mapped)
    | false =>
      cases got
      exact ⟨{ inv with pool := fresh.2 }, fresh.1.1, Bool.noConfusion⟩

theorem Inv.store {paging : State} (pool : paging.pool = space.paging.pool) :
    Inv elsewhere { space with paging := paging } :=
  { inv with pool := pool ▸ inv.pool }

theorem Inv.tableBelow {table index below : Nat}
    (got : Fault.tableBelow user space table index = some (below, next)) : Inv elsewhere next := by
  rw [Fault.tableBelow] at got
  split at got
  next =>
    obtain ⟨⟨frame, mid⟩, allocated, linked⟩ := bind_iff.1 got
    cases linked
    exact (inv.alloc allocated).1.store rfl
  next =>
    cases got
    exact inv

theorem Inv.install {level entry : Nat} (table index : Nat)
    (points : user = true -> writable entry = true -> ∀ frame ∈ pagesOf level entry, frame ∈ space.owned) :
    Inv elsewhere (install user space level table index entry) := by
  refine { inv with leaves := ?_ }
  cases user with
  | true => exact forall_mem_cons.2 ⟨points rfl, inv.leaves⟩
  | false => exact inv.leaves

variable {vma : Vma} {addr filePage : Nat} {writeFault : Bool}

theorem Inv.hugePage {pl2 : Nat} (got : Fault.hugePage user space vma pl2 addr = some next) :
    Inv elsewhere next := by
  rw [Fault.hugePage] at got
  split_ifs at got
  cases supply : space.blocks with
  | nil => simp [supply] at got
  | cons hp rest =>
    have fresh := inv.blocks
    rw [supply, forall_mem_cons] at fresh
    simp only [supply, some.injEq] at got
    subst got
    have first := (fresh.1 hp (by simp)).1
    have grown (paging : State) (pool : paging.pool = space.paging.pool) : Inv elsewhere { space with
        paging := paging, blocks := rest, owned := List.range' hp 512 ++ space.owned } := by
      refine ⟨pool ▸ inv.pool, fresh.2, fun other member => ?_, fun leaf member may other mapped => ?_⟩
      · rcases mem_append.1 member with new | old
        · exact (fresh.1 other new).2
        · exact inv.owned other old
      · exact mem_append_right _ (inv.leaves leaf member may other mapped)
    refine Inv.install (grown _ ?_) _ _ fun _ _ frame mapped => mem_append_left _ ?_
    · rfl
    · rwa [pagesOf, frameOf_mkPde first] at mapped

theorem Inv.mapPage {pl1 page : Nat} {writeFlag : Bool}
    (points : user = true -> writeFlag = true -> frameOf page < 2 ^ 40 ∧ frameOf page ∈ space.owned)
    (got : Fault.mapPage user space pl1 addr page writeFlag = some (.resolved next)) :
    Inv elsewhere next := by
  rw [Fault.mapPage] at got
  split at got
  next => cases got
  cases got
  refine inv.install _ _ fun own may frame mapped => ?_
  simp only [own, Bool.true_eq_false, and_false, if_false] at may mapped
  cases writeFlag with
  | false => exact absurd (may.symm.trans (readOnly_mkPte ..)) (by simp)
  | true =>
    obtain ⟨small, owned⟩ := points own rfl
    rw [pagesOf, frameOf_mkPte small, Nat.sub_self, pow_zero, range'_one, mem_singleton] at mapped
    rwa [mapped]

theorem Inv.fixedPage {page : Nat} {writeFlag : Bool}
    (backed : user = true -> vma.vmInode = none -> vma.vmProt &&& protWrite = 0)
    (got : Fault.fixedPage user space vma addr writeFault filePage = some (page, writeFlag, next)) :
    Inv elsewhere next ∧
      (user = true -> writeFlag = true -> frameOf page < 2 ^ 40 ∧ frameOf page ∈ next.owned) := by
  rw [Fault.fixedPage] at got
  split at got
  next => cases got
  cases file : vma.vmInode with
  | none =>
    simp only [file] at got
    cases got
    refine ⟨inv, fun own may => ?_⟩
    exact absurd (backed own file) (of_decide_eq_true may)
  | some inode =>
    simp only [file] at got
    split at got
    next => cases got
    split at got
    next =>
      obtain ⟨⟨frame, mid⟩, allocated, copied⟩ := bind_iff.1 got
      cases copied
      obtain ⟨kept, small, owned⟩ := inv.alloc allocated
      refine ⟨kept.store rfl, fun own _ => ?_⟩
      rw [frameOf, Nat.mul_div_cancel _ (by decide)]
      exact ⟨small, owned own⟩
    next =>
      cases got
      exact ⟨inv, fun _ => Bool.noConfusion⟩

theorem Inv.faultIn {pgd : Nat} (backed : user = true -> Backed vma)
    (got : Fault.faultIn user pgd space vma addr writeFault filePage = some (.resolved next)) :
    Inv elsewhere next := by
  simp only [Fault.faultIn, bind_eq_bind, bind_eq_some_iff] at got
  obtain ⟨⟨pl3, third⟩, linked3, ⟨pl2, second⟩, linked2, got⟩ := got
  replace inv := (inv.tableBelow linked3).tableBelow linked2
  cases huge : Fault.hugePage user second vma pl2 addr with
  | some mapped =>
    simp only [huge] at got
    cases got
    exact inv.hugePage huge
  | none =>
    simp only [huge, bind_eq_some_iff] at got
    obtain ⟨⟨pl1, first⟩, linked1, got⟩ := got
    replace inv := inv.tableBelow linked1
    split at got
    next =>
      cases supply : Fault.alloc user first with
      | none => simp [supply] at got
      | some page =>
        obtain ⟨frame, mid⟩ := page
        simp only [supply] at got
        obtain ⟨inv, small, owned⟩ := inv.alloc supply
        refine inv.mapPage (fun own _ => ?_) got
        rw [frameOf, Nat.mul_div_cancel _ (by decide)]
        exact ⟨small, owned own⟩
    next named =>
      obtain ⟨⟨page, writeFlag, mid⟩, fixed, got⟩ := bind_iff.1 got
      have isFixed : vma.vmFlags &&& mapFixed ≠ 0 := fun no => by simp [Fault.fixedPage, no] at fixed
      obtain ⟨inv, points⟩ := inv.fixedPage (fun own file => by
        by_contra writes
        exact backed own writes (not_not.1 named) isFixed file) fixed
      exact inv.mapPage points got

theorem Inv.handleMmFault {kernel : Kernel} (backed : ∀ vma ∈ space.vm.mmap, vma.vmStart ≤ pageMask addr ->
      wrap (pageMask addr + 8) ≤ vma.vmEnd -> Backed vma)
    (got : Fault.handleMmFault kernel space addr writeFault filePage = some (.resolved next)) : Inv elsewhere next := by
  rw [Fault.handleMmFault] at got
  split at got
  next =>
    split_ifs at got
    · cases got
      exact inv
    · obtain ⟨vma, -, got⟩ := bind_iff.1 got
      exact inv.faultIn Bool.noConfusion got
  next =>
    split_ifs at got
    split at got
    next => cases got
    next index search =>
      obtain ⟨vma, here, got⟩ := bind_iff.1 got
      obtain ⟨early, area, late, split, rfl, low, high⟩ := vmFindVma_split search
      obtain rfl : area = vma := by simpa [split] using here
      exact inv.faultIn (fun _ => backed area (by simp [split]) low high) got

end

def Start (elsewhere : Nat -> Prop) (space : Space) : Prop := Inv elsewhere space ∧ space.leaves = []

-- The areas are any; no fault is in one that is not backed.
def Allowed (space : Space) : Event -> Prop
  | .mmap _ => True
  | .fault addr _ _ => ∀ vma ∈ space.vm.mmap, vma.vmStart ≤ pageMask addr -> wrap (pageMask addr + 8) ≤ vma.vmEnd ->
      Backed vma

theorem step_inv {elsewhere : Nat -> Prop} {kernel : Kernel} {task : Task} {space next : Space} {event : Event}
    (inv : Inv elsewhere space) (allowed : Allowed space event) (moved : step kernel task space event = some next) :
    Inv elsewhere next := by
  cases event with
  | mmap args =>
    obtain ⟨mapped, ran, rfl⟩ := map_eq_some_iff.1 moved
    exact { inv with }
  | fault addr errcode filePage =>
    simp only [step, arPageFault] at moved
    split at moved
    next resolved =>
      cases moved
      split_ifs at resolved
      · exact inv.handleMmFault allowed resolved
      · exact inv.handleMmFault allowed resolved
    next => cases moved

theorem writable_leaves_owned {elsewhere : Nat -> Prop} {kernel : Kernel} {task : Task} {space : Space}
    (reached : Reachable (Start elsewhere) (step kernel task) Allowed space) :
    ∀ leaf ∈ space.leaves, writable leaf.2 = true -> ∀ frame ∈ pagesOf leaf.1 leaf.2,
      frame ∈ space.owned ∧ ¬ elsewhere frame := by
  have inv : Inv elsewhere space := reached.invariant (fun _ first => first.1)
    fun _ _ _ => step_inv
  intro leaf member may frame mapped
  have own := inv.leaves leaf member may frame mapped
  exact ⟨own, inv.owned frame own⟩

def newSpace : Space :=
  { paging :=
      { mem := fun _ _ => 0
        pool := [16, 17, 18, 19]
        freed := []
        kernelLevel3Entries := []
        mm := { pgd := 8 * pageSize, statPageAllocs := 1, statPageFree := 0 } }
    vm := emptyMm
    blocks := []
    owned := [8]
    leaves := [] }

def onlyKernel : Kernel := { mmap := [], pgd := pageSize, phyMemSize := 0 }

def writePage (flags : Nat) : MmapArgs :=
  { file := none, addr := 0x400000, len := pageSize, prot := protWrite, flags := flags, pgoff := 7 * pageSize,
    name := "", slab := true }

theorem newSpace_start (vm : Mm) : Start (· = 7) { newSpace with vm := vm } :=
  ⟨⟨by simp [newSpace], by simp [newSpace], by simp [newSpace], by simp [newSpace]⟩, rfl⟩

-- `fs_elf_load` maps this area for every program; page 7 is behind it here.
def syscallPage : Vma :=
  { vmStart := 0xffffffffff600000, vmEnd := 0xffffffffff602000, name := "fst_syscal", vmProt := 7, vmFlags := mapFixed,
    vmInode := none, vmPrivateData := 7 * pageSize, hugepagesEnabled := false }

def loadedSpace : Space := { newSpace with vm := { emptyMm with mmap := [syscallPage] } }

theorem writable_leaves_owned_anonymous : ∃ (space : Space) (leaf : Nat × Nat), syscallPage ∈ space.vm.mmap ∧
    leaf ∈ space.leaves ∧ writable leaf.2 = true ∧ ∀ frame ∈ pagesOf leaf.1 leaf.2, frame ∈ space.owned ∧
      ¬ frame = 7 := by
  have outcome : (step onlyKernel userTask loadedSpace (.mmap (writePage mapAnonymous))).any (fun mid =>
      (∀ vma ∈ mid.vm.mmap, vma.vmStart ≤ 0x400000 -> vma.vmFlags &&& mapAnonymous ≠ 0) ∧
      (step onlyKernel userTask mid (.fault 0x400000 6 0)).any fun space =>
        syscallPage ∈ space.vm.mmap ∧ space.leaves = [(1, mkPte 19 false true true)]) = true := by
    decide +kernel
  obtain ⟨mid, mapped, anonymous, ran⟩ := holds_of_any outcome
  obtain ⟨space, faulted, there, leaves⟩ := holds_of_any ran
  have asks : Allowed loadedSpace (.mmap (writePage mapAnonymous)) := trivial
  have may : Allowed mid (.fault 0x400000 6 0) := fun vma member low _ _ named => absurd named (anonymous vma member low)
  have member : (1, mkPte 19 false true true) ∈ space.leaves := by
    rw [leaves]
    exact mem_cons_self
  refine ⟨space, _, there, member, by decide, ?_⟩
  exact writable_leaves_owned (.next (.next (.start (newSpace_start _)) asks mapped) may faulted) _ member (by decide)

theorem mmap_maps_kernel_frame : ∃ (space : Space) (leaf : Nat × Nat),
    Reachable (Start (· = 7)) (step onlyKernel userTask) (fun _ _ => True) space ∧ leaf ∈ space.leaves ∧
      writable leaf.2 = true ∧ 7 ∈ pagesOf leaf.1 leaf.2 ∧ 7 ∉ space.owned := by
  have outcome : ((step onlyKernel userTask newSpace (.mmap (writePage mapFixed))).bind
      (step onlyKernel userTask · (.fault 0x400000 6 0))).any
        (fun space => space.leaves = [(1, mkPte 7 false true true)] ∧ space.owned = [18, 17, 16, 8]) = true := by
    decide +kernel
  obtain ⟨space, ran, leaves, owned⟩ := holds_of_any outcome
  obtain ⟨mid, mapped, faulted⟩ := bind_iff.1 ran
  refine ⟨space, (1, mkPte 7 false true true), .next (.next (.start (newSpace_start emptyMm)) trivial mapped)
    trivial faulted, ?_⟩
  exact ⟨by simp [leaves], by decide, by decide, by simp [owned]⟩

end JinyKernel.Fault
