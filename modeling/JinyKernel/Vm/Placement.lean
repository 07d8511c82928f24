import JinyKernel.Vm.Run

namespace JinyKernel.Vm

open Ranges List Option Run

structure Placing where
  mm : Mm
  live : List (Nat × Nat)

inductive Ask where
  | mmap (args : MmapArgs)
  | munmap (addr len : Nat)

def ask (task : Task) (state : Placing) : Ask -> Option Placing
  | .mmap args => (vmMmap task state.mm args).map fun out =>
    { mm := out.2, live := if out.1 = 0 then state.live else (out.1, args.len) :: state.live }
  | .munmap addr len => some { mm := (vmMunmap state.mm addr len).mm, live := state.live.erase (addr, len) }

def Asked (task : Task) (state : Placing) : Ask -> Prop
  | .mmap args => args.Anonymous task ∧ args.file = none ∧ 0 < args.len
  | .munmap addr len => (addr, len) ∈ state.live

def Whole (task : Task) (state : Placing) : Ask -> Prop
  | .mmap args => pageSize ∣ args.len ∧ args.Fits task state.mm
  | .munmap _ _ => True

def Untouched (state : Placing) : Prop := MmInv state.mm ∧ state.live = []

def Aligned (mm : Mm) : Prop := (∀ area ∈ mm.mmap, pageSize ∣ area.vmEnd) ∧ pageSize ∣ mm.anonymousAddr

def Touches (range : Nat × Nat) (page : Nat) : Prop :=
  page * pageSize < range.1 + range.2 ∧ range.1 < (page + 1) * pageSize

structure PlacingInv (state : Placing) : Prop where
  mm : MmInv state.mm
  aligned : Aligned state.mm
  inside : ∀ range ∈ state.live, ∃ area ∈ state.mm.mmap, area.vmStart ≤ range.1 ∧ range.1 + range.2 ≤ area.vmEnd
  whole : ∀ range ∈ state.live, pageSize ∣ range.1 ∧ pageSize ∣ range.2 ∧ 0 < range.2
  apart : state.live.Pairwise fun left right => left.1 + left.2 ≤ right.1 ∨ right.1 + right.2 ≤ left.1

section

variable {state : Placing} (inv : PlacingInv state) {mm : Mm} (after : MmInv mm) (aligned : Aligned mm)
  (kept : ∀ area ∈ state.mm.mmap, ∃ larger ∈ mm.mmap, larger.vmStart ≤ area.vmStart ∧ area.vmEnd ≤ larger.vmEnd)

include inv after aligned kept

theorem PlacingInv.keep : PlacingInv { state with mm := mm } := by
  refine ⟨after, aligned, fun range member => ?_, inv.whole, inv.apart⟩
  obtain ⟨area, old, low, high⟩ := inv.inside range member
  obtain ⟨larger, present, below, above⟩ := kept area old
  exact ⟨larger, present, below.trans low, high.trans above⟩

theorem PlacingInv.hand {start len : Nat} (isAligned : pageSize ∣ start) (pages : pageSize ∣ len) (filled : 0 < len)
    (inside : ∃ area ∈ mm.mmap, area.vmStart ≤ start ∧ start + len ≤ area.vmEnd)
    (apart : ∀ area ∈ state.mm.mmap, area.vmEnd ≤ start ∨ start + len ≤ area.vmStart) :
    PlacingInv { mm := mm, live := (start, len) :: state.live } := by
  have before := inv.keep after aligned kept
  refine ⟨after, aligned, forall_mem_cons.2 ⟨inside, before.inside⟩,
    forall_mem_cons.2 ⟨⟨isAligned, pages, filled⟩, inv.whole⟩, pairwise_cons.2 ⟨fun range member => ?_, inv.apart⟩⟩
  obtain ⟨area, old, low, high⟩ := inv.inside range member
  rcases apart area old with below | above
  · exact .inr (by omega)
  · exact .inl (by omega)

end

theorem Aligned.base {mm : Mm} (aligned : Aligned mm) : pageSize ∣ anonymousBase mm := by
  rw [anonymousBase]
  split_ifs
  · decide
  · exact aligned.2

theorem kept_replace {early late : List Vma} {vma larger : Vma} (start : larger.vmStart = vma.vmStart)
    (larger_end : vma.vmEnd ≤ larger.vmEnd) : ∀ area ∈ early ++ vma :: late, ∃ other ∈ early ++ larger :: late,
      other.vmStart ≤ area.vmStart ∧ area.vmEnd ≤ other.vmEnd := by
  intro area member
  rcases mem_append.1 member with before | rest
  · exact ⟨area, by simp [before], le_rfl, le_rfl⟩
  · rcases mem_cons.1 rest with rfl | behind
    · exact ⟨larger, by simp, start.le, larger_end⟩
    · exact ⟨area, by simp [behind], le_rfl, le_rfl⟩

variable {task : Task} {state next : Placing}

theorem PlacingInv.mmap {args : MmapArgs} (inv : PlacingInv state) (asked : Asked task state (.mmap args))
    (whole : Whole task state (.mmap args)) (moved : ask task state (.mmap args) = some next) : PlacingInv next := by
  obtain ⟨anonymous, named, filled⟩ := asked
  obtain ⟨pages, fits⟩ := whole
  obtain ⟨⟨ret, mm⟩, ran, rfl⟩ := map_eq_some_iff.1 moved
  have after := vmMmap_inv inv.mm fits ran
  have course := vmMmap_course task state.mm args
  generalize vmMmap task state.mm args = out at course ran
  cases course with
  | halt => cases ran
  | refuse =>
    cases ran
    exact inv
  | file missed proceeds isNamed => cases named.symm.trans isNamed
  | given missed proceeds isNamed fixed => exact absurd anonymous fixed
  | @found early late vma search split =>
    cases ran
    rw [if_pos anonymous.2.1]
    have areas := inv.aligned.1
    rw [split] at areas
    refine inv.keep after ⟨?_, inv.aligned.2⟩ (split ▸ kept_replace rfl le_rfl)
    simpa [or_imp, forall_and] using areas
  | placed missed proceeds isNamed isAnonymous =>
    have whole : wrap (anonymousBase state.mm + args.len) = anonymousBase state.mm + args.len :=
      Nat.mod_eq_of_lt (fits.placed anonymous)
    have base := inv.aligned.base
    have moves : pageSize ∣ wrap (anonymousBase state.mm + args.len) := by
      rw [whole]
      exact Nat.dvd_add base pages
    obtain ⟨isRet, isMm⟩ := Prod.mk.inj (some.inj ran)
    rcases vmaLink_cases _ _ with ⟨refused, same⟩ | ⟨linked, early, late, split, below, above, result⟩
    · rw [if_pos refused] at isRet
      rw [if_pos isRet.symm, ← isMm, same]
      exact inv.keep (same ▸ isMm ▸ after) ⟨inv.aligned.1, moves⟩ fun area member => ⟨area, member, le_rfl, le_rfl⟩
    have isBase : anonymousBase state.mm = ret := (if_neg (not_lt.2 linked)).symm.trans isRet
    have positive : ret ≠ 0 := isBase ▸ ((by decide : 0 < userAnonymousAddr).trans_le inv.mm.base).ne'
    have split := split
    have areas := inv.aligned.1
    rw [if_neg positive, ← isBase]
    rw [result] at isMm
    subst isMm
    have parts := pairwise_append.1 after.areas.ordered
    have behind := (pairwise_cons.1 parts.2.1).1
    refine inv.hand after ⟨?_, moves⟩ ?_ base pages filled ⟨anonymousVma task state.mm args, by simp, le_rfl, whole.ge⟩ ?_
    · rw [split] at areas
      simpa [or_imp, forall_and, anonymousVma, moves] using areas
    · rw [split]
      exact fun area member => ⟨area, by simpa using (mem_append.1 member).imp_right .inr, le_rfl, le_rfl⟩
    rw [split]
    intro area member
    rcases mem_append.1 member with early | late
    · exact .inl (below area early)
    · exact .inr (whole.ge.trans (behind area late))
  | @grown early late vma missed proceeds isNamed isAnonymous set search split low high clear =>
    have found : state.mm.mmap[early.length]? = some vma := by simp [split]
    have fits := fits.grown anonymous _ vma search found
    have whole : wrap (vma.vmEnd + args.len) = vma.vmEnd + args.len := Nat.mod_eq_of_lt fits
    have inhabited := inv.mm.anonymous_filled set low high
    obtain ⟨isRet, isMm⟩ := Prod.mk.inj (some.inj ran)
    obtain rfl : ret = vma.vmEnd := by
      rw [← isRet, whole, wrapSub]
      omega
    have areas := inv.aligned.1
    rw [if_neg (by omega)]
    rw [whole] at isMm
    subst isMm
    have parts := pairwise_append.1 after.areas.ordered
    have behind := (pairwise_cons.1 parts.2.1).1
    have ends := areas vma (by simp [split])
    refine inv.hand after ⟨?_, inv.aligned.2⟩ (split ▸ kept_replace rfl (Nat.le_add_right _ _)) ends pages filled
      ⟨{ vma with vmEnd := vma.vmEnd + args.len }, by simp, inhabited.le, le_rfl⟩ ?_
    · rw [split] at areas
      simpa [or_imp, forall_and, Nat.dvd_add ends pages, ends] using areas
    rw [split]
    intro area member
    rcases mem_append.1 member with before | rest
    · exact .inl ((parts.2.2 area before _ mem_cons_self).trans inhabited.le)
    · rcases mem_cons.1 rest with rfl | late
      · exact .inl le_rfl
      · exact .inr (behind area late)

theorem PlacingInv.munmap {addr len : Nat} (inv : PlacingInv state) (asked : Asked task state (.munmap addr len))
    (moved : ask task state (.munmap addr len) = some next) : PlacingInv next := by
  cases moved
  obtain ⟨areas, -, -, anonymousAddr⟩ := vmMunmap_spec state.mm addr len
  have unique : state.live.Nodup := inv.apart.imp_of_mem fun {left right} isLeft isRight apart same => by
    have := (inv.whole left isLeft).2.2
    subst same
    omega
  have fewer := vmMunmap_inv inv.mm addr len
  refine ⟨fewer, ⟨fun area member => inv.aligned.1 area ?_, anonymousAddr ▸ inv.aligned.2⟩, fun range member => ?_,
    fun range member => inv.whole range (mem_of_mem_erase member), inv.apart.sublist erase_sublist⟩
  · rw [areas] at member
    split_ifs at member
    · exact member
    · exact (mem_filter.1 member).1
  obtain ⟨differs, old⟩ := unique.mem_erase_iff.1 member
  obtain ⟨area, present, low, high⟩ := inv.inside range old
  refine ⟨area, ?_, low, high⟩
  rw [areas]
  split_ifs
  · exact present
  refine mem_filter.2 ⟨present, ?_⟩
  rw [Bool.not_eq_eq_eq_not, Bool.not_true, Bool.eq_false_iff]
  intro dropped
  -- the area would lie in the range given back
  have symmetric : Std.Symm fun left right : Nat × Nat => left.1 + left.2 ≤ right.1 ∨ right.1 + right.2 ≤ left.1 :=
    ⟨fun _ _ => Or.symm⟩
  have sides := inv.apart.forall old asked differs
  have filled := (inv.whole range old).2.2
  have wraps : wrap (addr + len) ≤ addr + len := Nat.mod_le _ _
  simp only [unmaps, Bool.and_eq_true, decide_eq_true_eq] at dropped
  omega

theorem ask_inv {event : Ask} (inv : PlacingInv state) (may : Asked task state event ∧ Whole task state event)
    (moved : ask task state event = some next) : PlacingInv next := by
  cases event with
  | mmap args => exact inv.mmap may.1 may.2 moved
  | munmap addr len => exact inv.munmap may.1 moved

theorem anonymous_results_apart {task : Task} {state : Placing}
    (reached : Reachable (fun state => Untouched state ∧ Aligned state.mm) (ask task)
      (fun state event => Asked task state event ∧ Whole task state event) state) :
    (∀ range ∈ state.live, pageSize ∣ range.1) ∧
      state.live.Pairwise fun left right => ∀ page, ¬ (Touches left page ∧ Touches right page) := by
  have inv : PlacingInv state := by
    refine reached.invariant (fun first start => ?_) fun _ _ _ => ask_inv
    obtain ⟨⟨mm, unused⟩, aligned⟩ := start
    exact ⟨mm, aligned, by simp [unused], by simp [unused], by simp [unused]⟩
  refine ⟨fun range member => (inv.whole range member).1, inv.apart.imp_of_mem ?_⟩
  rintro ⟨start, len⟩ ⟨start', len'⟩ isLeft isRight apart page ⟨⟨low, high⟩, low', high'⟩
  obtain ⟨⟨a, rfl⟩, ⟨b, rfl⟩, -⟩ := inv.whole _ isLeft
  obtain ⟨⟨c, rfl⟩, ⟨d, rfl⟩, -⟩ := inv.whole _ isRight
  simp only [pageSize] at *
  omega

def anonymousPages (len : Nat) : MmapArgs := { onePage 0 with len := len }

def noneLive : Placing := { mm := emptyMm, live := [] }

theorem noneLive_start : Untouched noneLive ∧ Aligned noneLive.mm :=
  ⟨⟨emptyMm_inv, rfl⟩, by simp [noneLive, emptyMm], Dvd.intro 0 rfl⟩

instance (task : Task) (state : Placing) : (event : Ask) -> Decidable (Asked task state event ∧ Whole task state event)
  | .mmap args => inferInstanceAs (Decidable ((args.Anonymous task ∧ args.file = none ∧ 0 < args.len) ∧
      pageSize ∣ args.len ∧ args.Fits task state.mm))
  | .munmap addr len => inferInstanceAs (Decidable ((addr, len) ∈ state.live ∧ True))

theorem anonymous_results_apart_twoPages : ∃ state : Placing,
    state.live = [(userAnonymousAddr + pageSize, pageSize), (userAnonymousAddr, pageSize)] ∧
    (∀ range ∈ state.live, pageSize ∣ range.1) ∧
    state.live.Pairwise fun left right => ∀ page, ¬ (Touches left page ∧ Touches right page) := by
  have outcome : ([Ask.mmap (onePage 0), .mmap (onePage 0)].foldlM (fun state event =>
      if decide (Asked userTask state event ∧ Whole userTask state event) then ask userTask state event else none)
      noneLive).any (fun state => state.live = [(userAnonymousAddr + pageSize, pageSize),
        (userAnonymousAddr, pageSize)]) =
      true := by decide +kernel
  obtain ⟨state, ran, live⟩ := holds_of_any outcome
  exact ⟨state, live, anonymous_results_apart (.checked (fun _ _ _ => of_decide_eq_true) (.start noneLive_start) ran)⟩

theorem anonymous_result_unaligned : ∃ state, Reachable (fun state => Untouched state ∧ Aligned state.mm)
    (ask userTask) (Asked userTask) state ∧ ∃ range ∈ state.live, ¬ pageSize ∣ range.1 := by
  have outcome : ((ask userTask noneLive (.mmap (anonymousPages 0x1001))).bind
      (ask userTask · (.mmap (anonymousPages 0x1000)))).any
        (fun state => (userAnonymousAddr + 0x1001, 0x1000) ∈ state.live) = true := by decide +kernel
  obtain ⟨state, ran, live⟩ := holds_of_any outcome
  obtain ⟨mid, first, second⟩ := bind_iff.1 ran
  have asked (state : Placing) (len : Nat) (filled : 0 < len) : Asked userTask state (.mmap (anonymousPages len)) :=
    ⟨(by decide : (onePage 0).Anonymous userTask), rfl, filled⟩
  exact ⟨state, .next (.next (.start noneLive_start) (asked _ _ (by decide)) first) (asked _ _ (by decide)) second, _,
    live, by decide⟩

end JinyKernel.Vm
