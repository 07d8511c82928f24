import JinyKernel.Vm.Areas

namespace JinyKernel.Vm

open Ranges List

theorem filter_eraseIdx {A : Type} (keep : A -> Bool) (entries : List A) (index : Nat) (inRange : index < entries.length)
    (dropped : keep entries[index] = false) : (entries.eraseIdx index).filter keep = entries.filter keep := by
  induction entries generalizing index with
  | nil => simp at inRange
  | cons entry rest ih =>
    cases index with
    | zero =>
      simp only [getElem_cons_zero] at dropped
      simp [dropped]
    | succ index =>
      simp [filter_cons, ih index (by simpa using inRange) dropped]

theorem munmapFrom_spec (addr len rounds : Nat) (state : Unmapped) (enough : state.mm.mmap.length ≤ rounds) :
    (munmapFrom addr len rounds state).mm.mmap = state.mm.mmap.filter (fun vma => !unmaps addr len vma) ∧
      (munmapFrom addr len rounds state).mm.brkAddr = state.mm.brkAddr ∧
      (munmapFrom addr len rounds state).mm.brkLen = state.mm.brkLen ∧
      (munmapFrom addr len rounds state).mm.anonymousAddr = state.mm.anonymousAddr := by
  induction rounds generalizing state with
  | zero =>
    have empty : state.mm.mmap = [] := length_eq_zero_iff.1 (by omega)
    simp [munmapFrom, empty]
  | succ rounds ih =>
    rw [munmapFrom]
    by_cases empty : state.mm.mmap = []
    · simp [empty]
    rw [if_neg empty]
    cases search : state.mm.mmap.findIdx? (unmaps addr len) with
    | none =>
      rw [findIdx?_eq_none_iff] at search
      refine ⟨(filter_eq_self.2 ?_).symm, rfl, rfl, rfl⟩
      intro vma member
      simp [search vma member]
    | some index =>
      obtain ⟨inRange, inside, -⟩ := findIdx?_eq_some_iff_getElem.1 search
      have shorter : (state.mm.mmap.eraseIdx index).length ≤ rounds := by
        rw [length_eraseIdx_of_lt inRange]
        omega
      have same := filter_eraseIdx (fun vma => !unmaps addr len vma) state.mm.mmap index inRange (by simp [inside])
      simp only [getElem?_eq_getElem inRange, vmaUnlink]
      rw [← same]
      exact ih _ shorter

theorem vmMunmap_spec (mm : Mm) (addr len : Nat) :
    (vmMunmap mm addr len).mm.mmap = (if len ≠ 2 ^ 64 - 1 ∧ pageAlign len = 0 then mm.mmap
      else mm.mmap.filter fun vma => !unmaps addr len vma) ∧
    (vmMunmap mm addr len).mm.brkAddr = mm.brkAddr ∧ (vmMunmap mm addr len).mm.brkLen = mm.brkLen ∧
    (vmMunmap mm addr len).mm.anonymousAddr = mm.anonymousAddr := by
  rw [vmMunmap]
  by_cases rejected : len ≠ 2 ^ 64 - 1 ∧ pageAlign len = 0
  · simp only [if_pos rejected, and_self]
  · simp only [if_neg rejected]
    exact munmapFrom_spec addr len _ _ le_rfl

def Vma.Covers (vma : Vma) (addr : Nat) : Prop := vma.vmStart ≤ addr ∧ addr < vma.vmEnd

instance (vma : Vma) (addr : Nat) : Decidable (vma.Covers addr) := inferInstanceAs (Decidable (_ ∧ _))

theorem mem_vmMunmap {mm : Mm} {addr len : Nat} (accepted : len = 2 ^ 64 - 1 ∨ pageAlign len ≠ 0)
    (fits : addr + len < 2 ^ 64) (vma : Vma) :
    vma ∈ (vmMunmap mm addr len).mm.mmap ↔
      vma ∈ mm.mmap ∧ ¬ (addr ≤ vma.vmStart ∧ vma.vmEnd ≤ addr + len) := by
  have whole : wrap (addr + len) = addr + len := Nat.mod_eq_of_lt fits
  have notRejected : ¬ (len ≠ 2 ^ 64 - 1 ∧ pageAlign len = 0) := by tauto
  rw [(vmMunmap_spec mm addr len).1, if_neg notRejected, mem_filter]
  simp only [unmaps, whole, Bool.not_eq_true', Bool.and_eq_false_iff, decide_eq_false_iff_not, not_and_or]

theorem vmMunmap_keeps {mm : Mm} {addr len : Nat} (wellFormed : WellFormed mm.mmap) {vma : Vma}
    (member : vma ∈ mm.mmap) {other : Nat} (covers : vma.Covers other)
    (outside : ¬ (addr ≤ other ∧ other < addr + len)) : vma ∈ (vmMunmap mm addr len).mm.mmap := by
  rw [(vmMunmap_spec mm addr len).1]
  split_ifs
  · exact member
  refine mem_filter.2 ⟨member, ?_⟩
  have proper := wellFormed.proper vma member
  have shorter : wrap (addr + len) ≤ addr + len := Nat.mod_le _ _
  simp only [unmaps, Vma.Covers] at *
  simp only [Bool.not_eq_true', Bool.and_eq_false_iff, decide_eq_false_iff_not]
  omega

theorem vmMunmap_whole_areas (mm : Mm) (addr len : Nat) (wellFormed : WellFormed mm.mmap) :
    (∀ vma ∈ mm.mmap, ∀ other, vma.Covers other -> ¬ (addr ≤ other ∧ other < addr + len) ->
      vma ∈ (vmMunmap mm addr len).mm.mmap) ∧
    (addr + len < 2 ^ 64 -> len = 2 ^ 64 - 1 ∨ pageAlign len ≠ 0 ->
      (∀ vma, vma ∈ (vmMunmap mm addr len).mm.mmap ↔
        vma ∈ mm.mmap ∧ ¬ (addr ≤ vma.vmStart ∧ vma.vmEnd ≤ addr + len)) ∧
      ((∀ vma ∈ mm.mmap, ¬ (vma.vmStart < addr ∧ addr < vma.vmEnd) ∧
          ¬ (vma.vmStart < addr + len ∧ addr + len < vma.vmEnd)) ->
        ∀ vma ∈ (vmMunmap mm addr len).mm.mmap, ∀ other, addr ≤ other -> other < addr + len ->
          ¬ vma.Covers other)) := by
  refine ⟨fun vma member other => vmMunmap_keeps wellFormed member, ?_⟩
  intro fits accepted
  refine ⟨mem_vmMunmap accepted fits, ?_⟩
  intro uncrossed vma kept other low high covers
  obtain ⟨member, notInside⟩ := (mem_vmMunmap accepted fits vma).1 kept
  have borders := uncrossed vma member
  simp only [Vma.Covers] at covers
  omega

def heapArea : Vma :=
  { vmStart := 0x10000
    vmEnd := 0x14000
    name := "syscall_mmap"
    vmProt := protRead ||| protWrite
    vmFlags := mapAnonymous
    vmInode := none
    vmPrivateData := 0
    hugepagesEnabled := false }

def twoHeaps : List Vma := [heapArea, { heapArea with vmStart := 0x18000, vmEnd := 0x1c000 }]

theorem vmMunmap_whole_areas_twoHeaps : WellFormed twoHeaps ∧ ∀ vma,
    vma ∈ (vmMunmap { emptyMm with mmap := twoHeaps } 0x10000 0x9000).mm.mmap ↔ vma ∈ twoHeaps ∧ vma ≠ heapArea := by
  have wellFormed : WellFormed twoHeaps :=
    (Ranges.Separated.nil.cons (by decide) (by simp)).cons (by decide) (by simp [heapArea])
  have removes := ((vmMunmap_whole_areas { emptyMm with mmap := twoHeaps } 0x10000 0x9000 wellFormed).2 (by decide)
    (by decide)).1
  have inside : ∀ vma ∈ twoHeaps, ¬ (0x10000 ≤ vma.vmStart ∧ vma.vmEnd ≤ 0x10000 + 0x9000) ↔ vma ≠ heapArea := by decide
  exact ⟨wellFormed, fun vma => (removes vma).trans (and_congr_right (inside vma))⟩

theorem vmMunmap_keeps_crossed_area : WellFormed [heapArea] ∧
      ∃ vma ∈ (vmMunmap { emptyMm with mmap := [heapArea] } 0x11000 0x1000).mm.mmap, vma.Covers 0x11000 :=
  ⟨Ranges.Separated.nil.cons (by decide) (by simp), heapArea, by decide, by decide⟩

end JinyKernel.Vm
