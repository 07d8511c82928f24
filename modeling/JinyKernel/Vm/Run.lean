import JinyKernel.Shared.Run
import JinyKernel.Vm.Course

namespace JinyKernel.Vm

open Ranges Option Run

inductive Event where
  | mmap (task : Task) (args : MmapArgs)
  | munmap (addr len : Nat)
  | brk (addr : Nat)
  | setupBrk (task : Task) (addr len : Nat) (slab : Bool)

def step (mm : Mm) : Event -> Option Mm
  | .mmap task args => (vmMmap task mm args).map Prod.snd
  | .munmap addr len => some (vmMunmap mm addr len).mm
  | .brk addr => (sysVmBrk mm addr).map Prod.snd
  | .setupBrk task addr len slab => (vmSetupBrk task mm addr len slab).map Prod.snd

structure MmapArgs.Fits (task : Task) (mm : Mm) (args : MmapArgs) : Prop where
  given : args.addr + args.len < 2 ^ 64
  placed : args.Anonymous task -> anonymousBase mm + args.len < 2 ^ 64
  grown : args.Anonymous task -> ∀ index vma, vmFindVma mm.mmap (wrapSub mm.anonymousAddr 100) 10 = some index ->
    mm.mmap[index]? = some vma -> vma.vmEnd + args.len < 2 ^ 64

def Fits (mm : Mm) : Event -> Prop
  | .mmap task args => args.Fits task mm
  | .munmap _ _ => True
  | .brk _ => True
  | .setupBrk task addr len slab => (setupBrkArgs task addr len slab).Fits task mm

-- The regions that grow in place are never empty.
structure MmInv (mm : Mm) : Prop where
  areas : WellFormed mm.mmap
  anonymous : mm.anonymousAddr = 0 ∨ userAnonymousAddr ≤ mm.anonymousAddr ∧ mm.anonymousAddr < 2 ^ 64
  heap : mm.brkLen = 0 ∧ mm.brkAddr = 0 ∨ 1 < mm.brkLen ∧ mm.brkAddr + mm.brkLen < 2 ^ 64

variable {mm mm' : Mm} {task : Task} {ret addr : Nat}

theorem MmInv.link (inv : MmInv mm) (vma : Vma) (proper : vma.vmStart ≤ vma.vmEnd) : MmInv (mmapLink mm vma).2 := by
  refine ⟨vmaLink_wellFormed mm vma proper inv.areas, ?_, ?_⟩ <;> simp only [mmapLink] <;>
    rcases vmaLink_cases mm vma with ⟨-, same⟩ | ⟨-, early, late, -, -, -, same⟩ <;> rw [same]
  · exact inv.anonymous
  · exact inv.anonymous
  · exact inv.heap
  · exact inv.heap

theorem MmInv.base (inv : MmInv mm) : userAnonymousAddr ≤ anonymousBase mm := by
  rw [anonymousBase]
  split_ifs with unset
  · exact le_rfl
  · exact (inv.anonymous.resolve_left unset).1

theorem MmInv.anonymous_filled (inv : MmInv mm) {vma : Vma} (set : mm.anonymousAddr ≠ 0)
    (low : vma.vmStart ≤ wrapSub mm.anonymousAddr 100) (high : wrap (wrapSub mm.anonymousAddr 100 + 10) ≤ vma.vmEnd) :
    vma.vmStart < vma.vmEnd := by
  have bounds := inv.anonymous.resolve_left set
  simp only [wrap, wrapSub, userAnonymousAddr] at *
  omega

theorem fileVma_proper {args : MmapArgs} (fits : args.Fits task mm) (file : File) :
    (fileVma args file).vmStart ≤ (fileVma args file).vmEnd := by
  have given := fits.given
  rw [fileVma]
  cases file.vinode with
  | none =>
    simp only [newVma, wrap]
    omega
  | some inode =>
    simp only [newVma, wrap]
    split_ifs <;> omega

theorem vmMmap_inv {args : MmapArgs} (inv : MmInv mm) (fits : args.Fits task mm)
    (mapped : vmMmap task mm args = some (ret, mm')) : MmInv mm' := by
  have given := fits.given
  have areas := inv.areas
  have course := vmMmap_course task mm args
  rw [mapped] at course
  generalize out : some (ret, mm') = result at course
  cases course with
  | halt => cases out
  | refuse =>
    cases out
    exact inv
  | @found early late vma search split =>
    cases out
    rw [split] at areas
    refine ⟨?_, inv.anonymous, inv.heap⟩
    exact areas.resize rfl (areas.proper vma (by simp)) fun other member =>
      Separated.head (areas.sublist (List.sublist_append_right early _)) member
  | file =>
    cases out
    exact inv.link _ (fileVma_proper fits _)
  | given =>
    cases out
    refine inv.link _ ?_
    simp only [newVma, wrap]
    omega
  | placed missed proceeds named anonymous =>
    cases out
    have placed := fits.placed anonymous
    have whole : wrap (anonymousBase mm + args.len) = anonymousBase mm + args.len := Nat.mod_eq_of_lt placed
    have base := inv.base
    have moved : MmInv { mm with anonymousAddr := wrap (anonymousBase mm + args.len) } :=
      ⟨areas, .inr (by simp only [whole]; omega), inv.heap⟩
    refine moved.link _ ?_
    simp only [anonymousVma, whole]
    omega
  | @grown early late vma missed proceeds named anonymous set search split low high clear =>
    cases out
    have found : mm.mmap[early.length]? = some vma := by simp [split]
    have whole : wrap (vma.vmEnd + args.len) = vma.vmEnd + args.len :=
      Nat.mod_eq_of_lt (fits.grown anonymous _ vma search found)
    refine ⟨?_, inv.anonymous, inv.heap⟩
    simp only [split, whole] at areas clear ⊢
    rw [← growVma_split]
    exact grow_wellFormed areas (inv.anonymous_filled set low high) (by omega) clear

theorem MmInv.heap_filled (inv : MmInv mm) {vma : Vma} (low : vma.vmStart ≤ mm.brkAddr)
    (high : wrap (mm.brkAddr + wrapSub mm.brkLen 1) ≤ vma.vmEnd) (grows : vma.vmEnd < addr) (limit : addr ≤ brkLimit) :
    vma.vmStart < vma.vmEnd ∧ 1 < wrapSub addr mm.brkAddr ∧ mm.brkAddr + wrapSub addr mm.brkAddr < 2 ^ 64 := by
  have heap := inv.heap
  simp only [wrap, wrapSub, brkLimit] at *
  omega

theorem sysVmBrk_inv (inv : MmInv mm) (moved : sysVmBrk mm addr = some (ret, mm')) : MmInv mm' := by
  rw [sysVmBrk] at moved
  by_cases query : addr = 0
  · rw [if_pos query] at moved
    cases moved
    exact inv
  rw [if_neg query] at moved
  by_cases shrinks : wrapSub addr mm.brkLen < mm.brkAddr
  · rw [if_pos shrinks] at moved
    cases moved
    exact inv
  rw [if_neg shrinks] at moved
  obtain ⟨index, search, moved⟩ := bind_iff.1 moved
  obtain ⟨vma, found, moved⟩ := bind_iff.1 moved
  obtain ⟨early, area, late, split, rfl, low, high⟩ := vmFindVma_split search
  obtain rfl : area = vma := by simpa [split] using found
  by_cases tooHigh : brkLimit < addr
  · rw [if_pos tooHigh] at moved
    cases moved
    exact inv
  rw [if_neg tooHigh] at moved
  split_ifs at moved with grows
  · obtain ⟨filled, long, ends⟩ := inv.heap_filled low high grows (by omega)
    dsimp only at moved
    split_ifs at moved with clear
    · cases moved
      have areas := inv.areas
      simp only [split] at areas clear
      refine ⟨?_, inv.anonymous, .inr ⟨long, ends⟩⟩
      simp only [split]
      exact grow_wellFormed areas filled grows.le clear
    · cases moved
      exact inv
  · cases moved
    exact inv

theorem vmMunmap_inv (inv : MmInv mm) (addr len : Nat) : MmInv (vmMunmap mm addr len).mm := by
  obtain ⟨areas, brkAddr, brkLen, anonymousAddr⟩ := vmMunmap_spec mm addr len
  refine ⟨?_, by simpa only [anonymousAddr] using inv.anonymous, by simpa only [brkAddr, brkLen] using inv.heap⟩
  rw [areas]
  split_ifs
  · exact inv.areas
  · exact inv.areas.sublist List.filter_sublist

theorem vmSetupBrk_inv {len : Nat} {slab : Bool} (inv : MmInv mm)
    (fits : (setupBrkArgs task addr len slab).Fits task mm)
    (mapped : vmSetupBrk task mm addr len slab = some (ret, mm')) : MmInv mm' := by
  rw [vmSetupBrk] at mapped
  split_ifs at mapped with empty
  · cases mapped
    exact inv
  have given := fits.given
  have long : 1 < pageAlign len := by
    simp only [pageAlign, pageMask, pageSize] at empty ⊢
    omega
  have placed : MmInv { mm with brkAddr := brkStart addr, brkLen := pageAlign len } :=
    ⟨inv.areas, inv.anonymous, .inr ⟨long, given⟩⟩
  exact vmMmap_inv placed { fits with } mapped

theorem step_inv {next : Mm} {event : Event} (inv : MmInv mm) (fits : Fits mm event)
    (moved : step mm event = some next) : MmInv next := by
  cases event with
  | mmap task args =>
    obtain ⟨⟨ret, mm'⟩, mapped, rfl⟩ := map_eq_some_iff.1 moved
    exact vmMmap_inv inv fits mapped
  | munmap addr len =>
    cases moved
    exact vmMunmap_inv inv addr len
  | brk addr =>
    obtain ⟨⟨ret, mm'⟩, mapped, rfl⟩ := map_eq_some_iff.1 moved
    exact sysVmBrk_inv inv mapped
  | setupBrk task addr len slab =>
    obtain ⟨⟨ret, mm'⟩, mapped, rfl⟩ := map_eq_some_iff.1 moved
    exact vmSetupBrk_inv inv fits mapped

abbrev Reaches (mm : Mm) : Prop := Reachable (· = emptyMm) step Fits mm

theorem emptyMm_inv : MmInv emptyMm := ⟨Separated.nil, .inl rfl, .inl ⟨rfl, rfl⟩⟩

theorem reachable_areas_ordered (mm : Mm) (reached : Reaches mm) :
    mm.mmap.Pairwise (fun left right => left.vmStart ≤ right.vmStart) ∧
      mm.mmap.IsChain fun left right => left.vmEnd ≤ right.vmStart := by
  have inv : MmInv mm := Reachable.invariant (fun _ first => first ▸ emptyMm_inv)
    (fun _ _ _ => step_inv) reached
  exact ⟨inv.areas.sorted, inv.areas.ordered.isChain⟩

def userTask : Task := { kernelMm := false, hpThread := false, userHugepages := false }

def onePage (addr : Nat) : MmapArgs :=
  { file := none
    addr := addr
    len := pageSize
    prot := protRead
    flags := mapAnonymous
    pgoff := 0
    name := "syscall_mmap"
    slab := true }

instance (task : Task) (mm : Mm) (args : MmapArgs) : Decidable (args.Fits task mm) :=
  decidable_of_iff (args.addr + args.len < 2 ^ 64 ∧ (args.Anonymous task -> anonymousBase mm + args.len < 2 ^ 64 ∧
    ∀ vma ∈ (vmFindVma mm.mmap (wrapSub mm.anonymousAddr 100) 10).bind (mm.mmap[·]?), vma.vmEnd + args.len < 2 ^ 64)) (by
    refine ⟨fun holds => ⟨holds.1, fun anonymous => (holds.2 anonymous).1, fun anonymous index vma found here =>
      (holds.2 anonymous).2 vma (bind_eq_some_iff.2 ⟨index, found, here⟩)⟩, fun fits => ⟨fits.given, fun anonymous =>
      ⟨fits.placed anonymous, fun vma member => ?_⟩⟩⟩
    obtain ⟨index, found, here⟩ := bind_eq_some_iff.1 member
    exact fits.grown anonymous index vma found here)

def twoAreas : Option Mm := (step emptyMm (.mmap userTask (onePage 0))).bind (step · (.mmap userTask (onePage 0x10000)))

theorem twoAreas_reached : ∃ mm, Reaches mm ∧ mm.mmap.map Vma.vmStart = [0x10000, userAnonymousAddr] := by
  have outcome : twoAreas.map (fun mm => mm.mmap.map Vma.vmStart) = some [0x10000, userAnonymousAddr] := by
    decide +kernel
  obtain ⟨mm, run, starts⟩ := map_eq_some_iff.1 outcome
  obtain ⟨first, anonymous, fixed⟩ := bind_iff.1 run
  have fitsFirst : Fits emptyMm (.mmap userTask (onePage 0)) := (by decide : (onePage 0).Fits userTask emptyMm)
  have notChosen : ¬ (onePage 0x10000).Anonymous userTask := by decide
  have fitsSecond : Fits first (.mmap userTask (onePage 0x10000)) :=
    ⟨by decide, fun chosen => absurd chosen notChosen, fun chosen => absurd chosen notChosen⟩
  exact ⟨mm, .next (.next (.start rfl) fitsFirst anonymous) fitsSecond fixed, starts⟩

theorem reachable_areas_ordered_twoAreas :
    ∃ mm, Reaches mm ∧ mm.mmap.map Vma.vmStart = [0x10000, userAnonymousAddr] ∧
      mm.mmap.IsChain fun left right => left.vmEnd ≤ right.vmStart := by
  obtain ⟨mm, reached, starts⟩ := twoAreas_reached
  exact ⟨mm, reached, starts, (reachable_areas_ordered mm reached).2⟩

end JinyKernel.Vm
