import JinyKernel.Paging.Clear

namespace JinyKernel.Paging

open List Radix

def leafFor (entries : List Nat) (mem : Nat -> Nat -> Nat) (root va : Nat) : Option (Nat × Nat) :=
  leafAt (tableFormat entries) mem (tableIndex va) 4 root

structure SoundTable (entries : List Nat) (mem : Nat -> Nat -> Nat) (root : Nat) : Prop where
  distinct : (tables (tableFormat entries) mem 4 root).Nodup
  nonzero : 0 ∉ tables (tableFormat entries) mem 4 root
  apart : ∀ leaf ∈ leaves (tableFormat entries) mem 4 root 0, leaf.level ≠ kernelPagesLevel ->
    ∀ frame ∈ pagesOf leaf.level leaf.entry, frame ∉ tables (tableFormat entries) mem 4 root

theorem SoundTable.outside {entries : List Nat} {mem : Nat -> Nat -> Nat} {root va level entry frame : Nat}
    (sound : SoundTable entries mem root) (found : leafFor entries mem root va = some (level, entry))
    (user : level ≠ kernelPagesLevel) (page : frame ∈ pagesOf level entry) :
    frame ∉ tables (tableFormat entries) mem 4 root := by
  obtain ⟨place, member⟩ := leafAt_mem (tableIndex_lt va) 0 found
  exact sound.apart _ member user frame page

-- No leaf is left in the range, the others are untouched, and each frame that is no page cache is freed once.
structure Unmapped (pc : PcRegion) (entries : List Nat) (addr len root : Nat) (before after : State) : Prop where
  removed : ∀ va, addr ≤ va -> va < addr + len -> leafFor entries after.mem root va = none
  kept : ∀ va < maxEntry 5, ¬ (addr ≤ va ∧ va < addr + len) ->
    leafFor entries after.mem root va = leafFor entries before.mem root va
  freedOnce : ∀ va < maxEntry 5, ∀ level entry frame, leafFor entries before.mem root va = some (level, entry) ->
    leafFor entries after.mem root va ≠ some (level, entry) -> level ≠ kernelPagesLevel -> frame ∈ pagesOf level entry ->
    pc.frames frame = false -> (freedFrames after).count frame = (freedFrames before).count frame + 1

structure Clearable (pc : PcRegion) (entries : List Nat) (addr len : Nat) (mem : Nat -> Nat -> Nat) (root : Nat) :
    Prop where
  -- The page count is not cut at 32 bits.
  below : ∀ va level entry, addr ≤ va -> va < addr + len -> leafFor entries mem root va = some (level, entry) ->
    va / maxEntry 4 < (addr + len) / maxEntry 4 ∧
      (level = 1 -> tableIndex va 1 < (addr + len - va / maxEntry 2 * maxEntry 2) / pageSize % 2 ^ 32)
  -- No leaf that is swept begins before the range.
  within : ∀ va level entry, va < addr -> leafFor entries mem root va = some (level, entry) ->
    va / maxEntry level = addr / maxEntry level -> (addr + len) / maxEntry 4 ≤ va / maxEntry 4
  -- One swept leaf frees each frame outside the page cache.
  single : ∀ va < maxEntry 5, ∀ level entry frame, leafFor entries mem root va = some (level, entry) ->
    swept addr len level va = true -> level ≠ kernelPagesLevel -> frame ∈ pagesOf level entry ->
    pc.frames frame = false ->
    (sweptFrames pc addr len (leaves (tableFormat entries) mem 4 root 0)).count frame = 1

section

variable (pc : PcRegion) {addr len : Nat} {s : State}

theorem arPageTableCleanup_spec (mapped : s.mm.pgd ≠ 0) (user : addr + len ≤ userLimit)
    (sound : SoundTable s.kernelLevel3Entries s.mem (frameOf s.mm.pgd)) :
    let after := (arPageTableCleanup pc false addr len s).2
    (∀ va < maxEntry 5, leafFor s.kernelLevel3Entries after.mem (frameOf s.mm.pgd) va =
      (leafFor s.kernelLevel3Entries s.mem (frameOf s.mm.pgd) va).filter (spared addr len va)) ∧
    ∀ frame, frame ∉ tables (tableFormat s.kernelLevel3Entries) s.mem 4 (frameOf s.mm.pgd) ->
      (freedFrames after).count frame = (freedFrames s).count frame + (sweptFrames pc addr len
        (leaves (tableFormat s.kernelLevel3Entries) s.mem 4 (frameOf s.mm.pgd) 0)).count frame := by
  intro after
  have cleared := clearPagetable_spec pc user s.kernelLevel3Entries 4 (frameOf s.mm.pgd) 0 s rfl sound.distinct
    sound.nonzero (.inl ⟨rfl, rfl⟩)
  rw [Nat.zero_mul] at cleared
  have result : after.mem = (clearPagetable pc addr len 4 (frameOf s.mm.pgd) 0 s).2.mem ∧
      freedFrames after = freedFrames (clearPagetable pc addr len 4 (frameOf s.mm.pgd) 0 s).2 := by
    simp only [after, arPageTableCleanup, mapped, Bool.false_eq_true, or_self, if_false]
    split_ifs <;> exact ⟨rfl, rfl⟩
  rw [result.1, result.2]
  exact ⟨fun va small => cleared.leaf va (Nat.div_eq_of_lt small), cleared.freed⟩

end

theorem cleanup_unmaps_iff (pc : PcRegion) (addr len : Nat) (s : State) (mapped : s.mm.pgd ≠ 0)
    (user : addr + len ≤ userLimit) (aligned : addr % pageSize = 0)
    (sound : SoundTable s.kernelLevel3Entries s.mem (frameOf s.mm.pgd)) :
    Unmapped pc s.kernelLevel3Entries addr len (frameOf s.mm.pgd) s (arPageTableCleanup pc false addr len s).2 ↔
      Clearable pc s.kernelLevel3Entries addr len s.mem (frameOf s.mm.pgd) := by
  obtain ⟨leaves, freed⟩ := arPageTableCleanup_spec pc mapped user sound
  generalize (arPageTableCleanup pc false addr len s).2 = after at leaves freed
  have narrow : ∀ va, va < addr + len -> va < maxEntry 5 := fun va inside =>
    inside.trans_le (user.trans (by decide))
  -- A leaf goes exactly when it is swept.
  have gone : ∀ va < maxEntry 5, ∀ leaf, leafFor s.kernelLevel3Entries s.mem (frameOf s.mm.pgd) va = some leaf ->
      leafFor s.kernelLevel3Entries after.mem (frameOf s.mm.pgd) va =
        if swept addr len leaf.1 va = true then none else some leaf := by
    intro va small leaf found
    rw [leaves va small, found, Option.filter_some, spared]
    cases swept addr len leaf.1 va <;> rfl
  constructor
  · rintro ⟨removed, kept, freedOnce⟩
    constructor
    · intro va level entry first last found
      have cleared := gone va (narrow va last) _ found
      rw [removed va first last] at cleared
      by_cases reached : swept addr len level va = true
      · exact (swept_iff.1 reached).2
      · simp [reached] at cleared
    · intro va level entry early found same
      by_contra top
      have small := narrow va (by omega)
      have high : level ≠ 1 := by
        rintro rfl
        change va / pageSize = addr / pageSize at same
        simp only [pageSize] at same aligned
        omega
      have reached : swept addr len level va = true :=
        swept_iff.2 ⟨same.ge, Nat.not_le.1 top, fun one => absurd one high⟩
      have changed := gone va small _ found
      rw [if_pos reached, kept va small (by omega), found] at changed
      cases changed
    · intro va small level entry frame found reached user page outside
      have cleared := gone va small _ found
      rw [if_pos reached] at cleared
      have once := freedOnce va small level entry frame found (by simp [cleared]) user page outside
      have count := freed frame (sound.outside found user page)
      omega
  · rintro ⟨below, within, single⟩
    constructor
    · intro va first last
      cases found : leafFor s.kernelLevel3Entries s.mem (frameOf s.mm.pgd) va with
      | none => rw [leaves va (narrow va last), found, Option.filter_none]
      | some leaf =>
        rw [gone va (narrow va last) leaf found, if_pos]
        exact swept_iff.2 ⟨Nat.div_le_div_right first, below va leaf.1 leaf.2 first last found⟩
    · intro va small outside
      cases found : leafFor s.kernelLevel3Entries s.mem (frameOf s.mm.pgd) va with
      | none => rw [leaves va small, found, Option.filter_none]
      | some leaf =>
        rw [gone va small leaf found, if_neg]
        intro reached
        obtain ⟨first, top, -⟩ := swept_iff.1 reached
        by_cases early : va < addr
        · have same := Nat.le_antisymm (Nat.div_le_div_right early.le) first
          exact absurd top (Nat.not_lt.2 (within va leaf.1 leaf.2 early found same))
        · have late : addr + len ≤ va := by omega
          exact absurd top (Nat.not_lt.2 (Nat.div_le_div_right late))
    · intro va small level entry frame found changed user page outside
      rw [gone va small _ found] at changed
      have reached : swept addr len level va = true := by
        by_contra missed
        simp [missed] at changed
      rw [freed frame (sound.outside found user page),
        single va small level entry frame found reached user page outside]

def onePage (frame word : Nat) : Nat :=
  if frame = 0x20000 ∧ word = 0 then 0x20001 * pageSize + 7
  else if frame = 0x20001 ∧ word = 0 then 0x20002 * pageSize + 7
  else if frame = 0x20002 ∧ word = 0x80 then 0x20003 * pageSize + 7
  else if frame = 0x20003 ∧ word = 0 then 0x40000 * pageSize + 7
  else 0

def onePageState : State :=
  { mem := onePage
    pool := []
    freed := []
    kernelLevel3Entries := [0x5000000]
    mm := { pgd := 0x20000 * pageSize, statPageAllocs := 5, statPageFree := 0 } }

def cacheAt16M : PcRegion := { startAddr := 0x1000000, len := 0x2000000 }

theorem onePage_sound : SoundTable [0x5000000] onePage 0x20000 :=
  ⟨by decide +kernel, by decide +kernel, by decide +kernel⟩

theorem cleanup_unmaps_iff_onePage :
    onePageState.mm.pgd ≠ 0 ∧ 0x10000000 + 4096 ≤ userLimit ∧ 0x10000000 % pageSize = 0 ∧
      SoundTable onePageState.kernelLevel3Entries onePageState.mem (frameOf onePageState.mm.pgd) ∧
      (Unmapped cacheAt16M onePageState.kernelLevel3Entries 0x10000000 4096 (frameOf onePageState.mm.pgd) onePageState
          (arPageTableCleanup cacheAt16M false 0x10000000 4096 onePageState).2 ↔
        Clearable cacheAt16M onePageState.kernelLevel3Entries 0x10000000 4096 onePageState.mem
          (frameOf onePageState.mm.pgd)) :=
  ⟨by decide, by decide, by decide, onePage_sound,
    cleanup_unmaps_iff cacheAt16M 0x10000000 4096 onePageState (by decide) (by decide) (by decide) onePage_sound⟩

theorem one_page_stays : ¬ Unmapped cacheAt16M onePageState.kernelLevel3Entries 0x10000000 4096
    (frameOf onePageState.mm.pgd) onePageState (arPageTableCleanup cacheAt16M false 0x10000000 4096 onePageState).2 := by
  intro unmapped
  have left : leafFor onePageState.kernelLevel3Entries (arPageTableCleanup cacheAt16M false 0x10000000 4096
    onePageState).2.mem
      (frameOf onePageState.mm.pgd) 0x10000000 = some (1, 0x40000 * pageSize + 7) := by decide +kernel
  rw [unmapped.removed 0x10000000 (by decide) (by decide)] at left
  cases left

end JinyKernel.Paging
