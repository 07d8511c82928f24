import JinyKernel.Vm.Run

namespace JinyKernel.Vm

open Ranges List Option

def Vma.Overlaps (vma area : Vma) : Prop := ∃ addr, vma.Covers addr ∧ area.Covers addr

variable {vma : Vma} {mm : Mm} {args : MmapArgs} {early late : List Vma}

theorem overlaps_iff {area : Vma} : vma.Overlaps area ↔ vma.vmStart < vma.vmEnd ∧ area.vmStart < area.vmEnd ∧
    vma.vmStart < area.vmEnd ∧ area.vmStart < vma.vmEnd := by
  constructor
  · rintro ⟨addr, ⟨low, high⟩, areaLow, areaHigh⟩
    omega
  · intro meets
    refine ⟨max vma.vmStart area.vmStart, ⟨?_, ?_⟩, ?_, ?_⟩ <;> omega

theorem linkFrom_accepts (first : Bool) {tmp : Vma} {rest : List Vma}
    (wellFormed : WellFormed (tmp :: rest)) : 0 ≤ (linkFrom vma first (tmp :: rest)).1 ↔
      tmp.vmEnd ≤ vma.vmStart ∧ (∀ area ∈ rest, area.vmEnd ≤ vma.vmStart ∨ vma.vmEnd ≤ area.vmStart) ∨
        first = true ∧ ¬ tmp.vmEnd ≤ vma.vmStart ∧ vma.vmEnd < tmp.vmStart := by
  induction rest generalizing tmp first with
  | nil =>
    rw [linkFrom]
    split_ifs with after before isFirst <;> simp [*]
  | cons next later ih =>
    rw [linkFrom]
    split_ifs with after before isFirst
    · simp only [head?_cons]
      split_ifs with fits
      · exact iff_of_true (by simp) (.inl ⟨after, fun area member => .inr (wellFormed.tail.before fits area member)⟩)
      -- the walk goes on, and can only succeed behind the next area
      simp only [ih false wellFormed.tail, after, fits, forall_mem_cons, true_and, and_false, or_false, false_and,
        reduceCtorEq, not_true_eq_false]
    · simp [after, before, isFirst]
    · simp [after, isFirst]
    · simp [after, before]

structure LinksRight (mm : Mm) (vma : Vma) : Prop where
  accepted : 0 ≤ (vmaLink mm vma).1 ↔ ∀ area ∈ mm.mmap, ¬ vma.Overlaps area
  added : 0 ≤ (vmaLink mm vma).1 ->
    WellFormed (vmaLink mm vma).2.mmap ∧ (vmaLink mm vma).2.mmap.Perm (vma :: mm.mmap)
  kept : (vmaLink mm vma).1 < 0 -> (vmaLink mm vma).2.mmap = mm.mmap

-- Every area ends before the range or begins behind it, the first one strictly.
def Room (mmap : List Vma) (vmStart vmEnd : Nat) : Prop :=
  (∀ area ∈ mmap, area.vmEnd ≤ vmStart ∨ vmEnd ≤ area.vmStart) ∧
    ∀ head ∈ mmap.head?, head.vmEnd ≤ vmStart ∨ vmEnd < head.vmStart

theorem vmaLink_accepts (wellFormed : WellFormed mm.mmap) (vma : Vma) :
    0 ≤ (vmaLink mm vma).1 ↔ Room mm.mmap vma.vmStart vma.vmEnd := by
  have code : 0 ≤ (vmaLink mm vma).1 ↔ mm.mmap = [] ∨ 0 ≤ (linkFrom vma true mm.mmap).1 := by
    rw [vmaLink]
    split_ifs with empty <;> dsimp only <;> split_ifs <;> simp_all
  rw [code]
  cases areas : mm.mmap with
  | nil => simp [Room]
  | cons head rest =>
    rw [areas] at wellFormed
    rw [linkFrom_accepts true wellFormed]
    simp only [Room, reduceCtorEq, false_or, true_and, forall_mem_cons, head?_cons, mem_def, some.injEq, forall_eq']
    constructor
    · rintro (⟨after, clear⟩ | ⟨-, before⟩)
      · exact ⟨⟨.inl after, clear⟩, .inl after⟩
      · exact ⟨⟨.inr before.le, fun area member => .inr (wellFormed.before before.le area (by simp [member]))⟩,
          .inr before⟩
    · rintro ⟨⟨-, clear⟩, apart⟩
      by_cases after : head.vmEnd ≤ vma.vmStart
      · exact .inl ⟨after, clear⟩
      · exact .inr ⟨after, apart.resolve_left after⟩

theorem vmaLink_right_iff (mm : Mm) (vma : Vma) (wellFormed : WellFormed mm.mmap) (filled : vma.vmStart < vma.vmEnd) :
    LinksRight mm vma ↔ ((∀ area ∈ mm.mmap, ¬ vma.Overlaps area) ->
      (∀ head ∈ mm.mmap.head?, vma.vmEnd ≠ head.vmStart) ∧
        ∀ area ∈ mm.mmap, area.vmStart = area.vmEnd -> area.vmEnd ≤ vma.vmStart ∨ vma.vmEnd ≤ area.vmStart) := by
  have accepts := vmaLink_accepts wellFormed vma
  constructor
  · intro right apart
    obtain ⟨clear, first⟩ := accepts.1 (right.accepted.2 apart)
    refine ⟨fun head member touches => ?_, fun area member _ => clear area member⟩
    have proper := wellFormed.proper head (mem_of_head? member)
    have := first head member
    omega
  intro holds
  refine ⟨⟨fun linked area member meets => ?_, fun apart => ?_⟩,
    fun linked => ⟨vmaLink_wellFormed mm vma filled.le wellFormed, ?_⟩, fun refused => ?_⟩
  · have clear := (accepts.1 linked).1 area member
    have := overlaps_iff.1 meets
    omega
  · have clear (area : Vma) (member : area ∈ mm.mmap) : area.vmEnd ≤ vma.vmStart ∨ vma.vmEnd ≤ area.vmStart := by
      rcases (wellFormed.proper area member).eq_or_lt with empty | inhabited
      · exact (holds apart).2 area member empty
      · have meets := mt overlaps_iff.2 (apart area member)
        omega
    refine accepts.2 ⟨clear, fun head member => ?_⟩
    have beside := clear head (mem_of_head? member)
    have first := (holds apart).1 head member
    omega
  · rcases vmaLink_cases mm vma with ⟨refused, -⟩ | ⟨-, early, late, split, -, -, result⟩
    · omega
    · rw [result, split]
      exact perm_middle
  · rcases vmaLink_cases mm vma with ⟨-, same⟩ | ⟨linked, -⟩
    · rw [same]
    · omega

theorem vmaLink_right_apart :
    LinksRight { emptyMm with mmap := [newVma (onePage 0x3000)] } (newVma (onePage 0x1000)) :=
  (vmaLink_right_iff _ _ (Separated.nil.cons (by decide) (by simp)) (by decide)).2 fun _ =>
    ⟨by simp [newVma, onePage, wrap, pageSize], by simp [newVma, onePage, wrap, pageSize]⟩

theorem vmaLink_refuses_touching : ∃ mm vma, WellFormed mm.mmap ∧ vma.vmStart < vma.vmEnd ∧
    (∀ area ∈ mm.mmap, ¬ vma.Overlaps area) ∧ (vmaLink mm vma).1 = -2 := by
  refine ⟨{ emptyMm with mmap := [newVma (onePage 0x3000)] }, newVma (onePage 0x2000), ?_, by decide, ?_, by decide⟩
  · exact Separated.nil.cons (by decide) (by simp)
  · simp [overlaps_iff, newVma, onePage, wrap, pageSize]

def Reports (mm : Mm) (out : Nat × Mm) : Prop :=
  (out.1 = 0 -> out.2.mmap = mm.mmap ∧ out.2.anonymousAddr = mm.anonymousAddr ∧ out.2.inodeCount = mm.inodeCount) ∧
    (out.1 ≠ 0 -> ∃ area ∈ out.2.mmap, area.Covers out.1)

-- The first area that holds a range.
def holder (mmap : List Vma) (addr len : Nat) : Option Vma :=
  mmap.find? fun vma => decide (vma.vmStart ≤ addr ∧ wrap (addr + len) ≤ vma.vmEnd)

def MmapArgs.Floats (task : Task) (args : MmapArgs) : Prop := args.file.isNone = true ∧ args.Anonymous task

instance (task : Task) (args : MmapArgs) : Decidable (args.Floats task) := inferInstanceAs (Decidable (_ ∧ _))

-- An area grows when nothing begins in what is added to it.
def extended (task : Task) (mm : Mm) (args : MmapArgs) : Option Vma :=
  if args.Floats task ∧ mm.anonymousAddr ≠ 0 then
    (holder mm.mmap (wrapSub mm.anonymousAddr 100) 10).filter fun vma =>
      ∀ area ∈ mm.mmap, area.vmStart ≤ vma.vmStart ∨ wrap (vma.vmEnd + args.len) ≤ area.vmStart
  else none

def target (task : Task) (mm : Mm) (args : MmapArgs) : Nat := if args.Floats task then anonymousBase mm else args.addr

-- A file is not mapped beyond its end.
def MmapArgs.extent (args : MmapArgs) : Nat :=
  match args.file with
  | some ⟨some _, stSize⟩ => min args.len stSize
  | _ => args.len

def MmapArgs.inode (args : MmapArgs) : Option Nat := args.file.bind File.vinode

theorem vmFindVma_none {mmap : List Vma} {addr len : Nat} (missed : vmFindVma mmap addr len = none) :
    holder mmap addr len = none := by
  simpa [vmFindVma, holder] using missed

theorem vmFindVma_holder {addr len : Nat} (search : vmFindVma (early ++ vma :: late) addr len = some early.length) :
    holder (early ++ vma :: late) addr len = some vma := by
  rw [vmFindVma, findIdx?_eq_some_iff_getElem] at search
  obtain ⟨inRange, holds, passed⟩ := search
  have before : early.find? (fun vma => decide (vma.vmStart ≤ addr ∧ wrap (addr + len) ≤ vma.vmEnd)) = none := by
    refine find?_eq_none.2 fun area member => ?_
    obtain ⟨k, inEarly, rfl⟩ := mem_iff_getElem.1 member
    simpa [getElem_append_left inEarly] using passed k inEarly
  have here : vma.vmStart ≤ addr ∧ wrap (addr + len) ≤ vma.vmEnd := by simpa using holds
  rw [holder, find?_append, before, Option.none_or, find?_cons_of_pos (by simpa using here)]

theorem clear_iff (wellFormed : WellFormed (early ++ vma :: late)) (filled : vma.vmStart < vma.vmEnd) {vmEnd : Nat} :
    vmFindVmaOvrlap (growVma (early ++ vma :: late) early.length vmEnd) early.length = none ↔
      ∀ area ∈ early ++ vma :: late, area.vmStart ≤ vma.vmStart ∨ vmEnd ≤ area.vmStart := by
  have parts := pairwise_append.1 wellFormed.ordered
  rw [growVma_split, vmFindVmaOvrlap_none_iff]
  simp only [mem_append, mem_cons]
  constructor
  · rintro clear area (before | rfl | behind)
    · have := clear area (.inl before)
      omega
    · exact .inl le_rfl
    · have := clear area (.inr behind)
      omega
  · rintro clear area (before | behind)
    · have := parts.2.2 area before vma (by simp)
      have := wellFormed.proper area (by simp [before])
      omega
    · have := (pairwise_cons.1 parts.2.1).1 area behind
      have := clear area (.inr (.inr behind))
      omega

abbrev Grant := Nat × Nat × Option (Nat × Nat)

def Vma.grant (vma : Vma) (addr : Nat) : Grant :=
  (vma.vmProt, vma.vmFlags, vma.vmInode.map fun inode => (inode, vma.vmPrivateData + (addr - vma.vmStart)))

def view (mmap : List Vma) (addr : Nat) : Option Grant :=
  (mmap.find? fun vma => decide (vma.Covers addr)).map (·.grant addr)

def MmapArgs.grant (args : MmapArgs) (ret addr : Nat) : Grant :=
  (args.prot, args.flags, (args.file.bind File.vinode).map fun inode => (inode, args.pgoff + (addr - ret)))

-- What a new area has of the request.
structure Fresh (args : MmapArgs) (start : Nat) (vma : Vma) : Prop where
  vmStart : vma.vmStart = start
  vmEnd : vma.vmEnd = wrap (start + args.extent)
  vmFlags : vma.vmFlags = if args.inode.isSome then args.flags ||| mapFixed else args.flags
  grant : ∀ addr, vma.grant addr = (args.prot, vma.vmFlags, (args.grant start addr).2.2)

-- The ways a call can go, told by the areas there are.
inductive Outcome (task : Task) (mm : Mm) (args : MmapArgs) : Option (Nat × Mm) -> Prop
  | halt (missed : holder mm.mmap args.addr args.len = none) (stops : ¬ args.Proceeds task) : Outcome task mm args none
  | refuse (missed : holder mm.mmap args.addr args.len = none) (stops : ¬ args.Proceeds task) :
      Outcome task mm args (some (0, mm))
  | held {early late : List Vma} {vma : Vma} (held : holder mm.mmap args.addr args.len = some vma)
      (split : mm.mmap = early ++ vma :: late) : Outcome task mm args (some (args.addr,
        { mm with mmap := early ++ { vma with vmFlags := args.flags, vmProt := args.prot } :: late }))
  | grown {early late : List Vma} {vma : Vma} (missed : holder mm.mmap args.addr args.len = none)
      (proceeds : args.Proceeds task) (grows : extended task mm args = some vma) (named : args.file = none)
      (split : mm.mmap = early ++ vma :: late) (filled : vma.vmStart < vma.vmEnd) :
      Outcome task mm args (some (wrapSub (wrap (vma.vmEnd + args.len)) args.len,
        { mm with mmap := early ++ { vma with vmEnd := wrap (vma.vmEnd + args.len) } :: late }))
  | linked {base : Mm} {vma : Vma} (missed : holder mm.mmap args.addr args.len = none) (proceeds : args.Proceeds task)
      (stays : extended task mm args = none) (areas : base.mmap = mm.mmap) (counts : base.inodeCount = mm.inodeCount)
      (cursor : base.anonymousAddr = if args.Floats task then vma.vmEnd else mm.anonymousAddr)
      (fresh : Fresh args (target task mm args) vma) : Outcome task mm args (some (mmapLink base vma))

theorem newVma_fresh (named : args.file = none) {start : Nat} (name : String) (huge : Bool) : Fresh args start
    { newVma args with
      name := name, vmStart := start, vmEnd := wrap (start + args.len), hugepagesEnabled := huge } := by
  refine ⟨rfl, ?_, ?_, fun addr => ?_⟩ <;>
    simp [MmapArgs.extent, MmapArgs.inode, newVma, Vma.grant, MmapArgs.grant, named]

theorem fileVma_fresh {file : File} (named : args.file = some file) : Fresh args args.addr (fileVma args file) := by
  obtain ⟨vinode, stSize⟩ := file
  cases vinode with
  | none =>
    refine ⟨rfl, ?_, ?_, fun addr => ?_⟩ <;>
      simp [fileVma, MmapArgs.extent, MmapArgs.inode, newVma, Vma.grant, MmapArgs.grant, named]
  | some inode =>
    refine ⟨rfl, ?_, ?_, fun addr => ?_⟩
    · simp only [fileVma, MmapArgs.extent, named]
      split_ifs with short
      · rw [min_eq_right short.le]
      · rw [min_eq_left (not_lt.1 short)]
    all_goals simp [fileVma, MmapArgs.inode, newVma, Vma.grant, MmapArgs.grant, named]

theorem extended_eq {task : Task} (inv : MmInv mm) (floats : args.Floats task) (set : mm.anonymousAddr ≠ 0)
    (search : vmFindVma mm.mmap (wrapSub mm.anonymousAddr 100) 10 = some early.length)
    (split : mm.mmap = early ++ vma :: late) (filled : vma.vmStart < vma.vmEnd) : extended task mm args =
      if vmFindVmaOvrlap (growVma mm.mmap early.length (wrap (vma.vmEnd + args.len))) early.length = none then some vma
      else none := by
  have areas := inv.areas
  rw [extended, if_pos ⟨floats, set⟩]
  rw [split] at search areas ⊢
  rw [vmFindVma_holder search, Option.filter_some]
  exact if_congr (decide_eq_true_iff.trans (clear_iff areas filled).symm) rfl rfl

theorem vmMmap_outcome (task : Task) (mm : Mm) (args : MmapArgs) (inv : MmInv mm) :
    Outcome task mm args (vmMmap task mm args) := by
  have course := vmMmap_course task mm args
  generalize vmMmap task mm args = out at course
  cases course with
  | halt missed stops => exact .halt (vmFindVma_none missed) stops
  | refuse missed stops => exact .refuse (vmFindVma_none missed) stops
  | found search split =>
    exact .held (by rw [split] at search ⊢; exact vmFindVma_holder search) split
  | file missed proceeds named =>
    have given : ¬ args.Floats task := by simp [MmapArgs.Floats, named]
    refine .linked (vmFindVma_none missed) proceeds ?_ rfl rfl (if_neg given).symm ?_
    · exact if_neg fun floats => given floats.1
    · rw [target, if_neg given]
      exact fileVma_fresh named
  | given missed proceeds named fixed =>
    have given : ¬ args.Floats task := fun floats => fixed floats.2
    refine .linked (vmFindVma_none missed) proceeds ?_ rfl rfl (if_neg given).symm ?_
    · exact if_neg fun floats => given floats.1
    · rw [target, if_neg given]
      exact newVma_fresh named args.name false
  | placed missed proceeds named anonymous blocked =>
    have floats : args.Floats task := ⟨by simp [named], anonymous⟩
    refine .linked (vmFindVma_none missed) proceeds ?_ rfl rfl (if_pos floats).symm ?_
    · rw [extended]
      split_ifs with moved
      · cases search : vmFindVma mm.mmap (wrapSub mm.anonymousAddr 100) 10 with
        | none => rw [vmFindVma_none search, Option.filter_none]
        | some index =>
          obtain ⟨early, vma, late, split, rfl, low, high⟩ := vmFindVma_split search
          have grows := extended_eq inv floats moved.2 search split (inv.anonymous_filled moved.2 low high)
          rw [if_neg (blocked moved.2 _ vma search (by simp [split]))] at grows
          rwa [extended, if_pos moved] at grows
      · rfl
    · rw [target, if_pos floats]
      exact newVma_fresh named _ _
  | @grown early late vma missed proceeds named anonymous set search split low high clear =>
    have floats : args.Floats task := ⟨by simp [named], anonymous⟩
    have filled := inv.anonymous_filled set low high
    have grows := extended_eq inv floats set search split filled
    rw [if_pos clear] at grows
    exact .grown (vmFindVma_none missed) proceeds grows named split filled

theorem mmapLink_reports {base : Mm} (wellFormed : WellFormed mm.mmap) (vma : Vma) (areas : base.mmap = mm.mmap)
    (counts : base.inodeCount = mm.inodeCount) : Reports mm (mmapLink base vma) ↔
      (Room mm.mmap vma.vmStart vma.vmEnd -> vma.vmStart ≠ 0 ∧
        (vma.vmStart < vma.vmEnd ∨ ∃ area ∈ mm.mmap, area.Covers vma.vmStart)) ∧
      (¬ Room mm.mmap vma.vmStart vma.vmEnd -> base.anonymousAddr = mm.anonymousAddr) := by
  have accepts := vmaLink_accepts (areas.symm ▸ wellFormed) vma
  rw [areas] at accepts
  rw [← accepts, Reports, mmapLink]
  rcases vmaLink_cases base vma with ⟨refused, same⟩ | ⟨linked, early, late, split, -, -, result⟩
  · simp [refused, same, areas, counts]
  simp only [linked, not_lt.2 linked, if_false, result, ← areas, split]
  by_cases zero : vma.vmStart = 0
  · simp [zero]
  · simp [zero, Vma.Covers, or_left_comm, or_and_right, exists_or]

theorem grow_back {vmEnd len : Nat} (word : vmEnd < 2 ^ 64) (long : len < 2 ^ 64) :
    wrapSub (wrap (vmEnd + len)) len = vmEnd := by
  simp only [wrap, wrapSub]
  omega

-- An address returned is covered, and 0 is returned by calls that change nothing.
def Honest (task : Task) (mm : Mm) (args : MmapArgs) : Prop :=
  match holder mm.mmap args.addr args.len with
  | some vma =>
    if args.addr = 0 then vma.vmFlags = args.flags ∧ vma.vmProt = args.prot
    else ∃ area ∈ mm.mmap, area.Covers args.addr
  | none => args.Proceeds task ->
    match extended task mm args with
    | some vma => vma.vmEnd < wrap (vma.vmEnd + args.len) ∨ ∃ area ∈ mm.mmap, area.Covers vma.vmEnd
    | none =>
      let start := target task mm args
      let stop := wrap (start + args.extent)
      (Room mm.mmap start stop -> start ≠ 0 ∧ (start < stop ∨ ∃ area ∈ mm.mmap, area.Covers start)) ∧
        (¬ Room mm.mmap start stop -> args.Floats task -> stop = mm.anonymousAddr)

theorem vmMmap_reports_iff (task : Task) (mm : Mm) (args : MmapArgs) (inv : MmInv mm)
    (words : ∀ area ∈ mm.mmap, area.vmEnd < 2 ^ 64) (long : args.len < 2 ^ 64) :
    (∀ out, vmMmap task mm args = some out -> Reports mm out) ↔ Honest task mm args := by
  have outcome := vmMmap_outcome task mm args inv
  generalize vmMmap task mm args = result at outcome
  cases outcome with
  | halt missed stops => simp [Honest, missed, stops]
  | refuse missed stops => simp [Honest, missed, stops, Reports]
  | @held early late vma held split =>
    simp only [Honest, held, some.injEq, forall_eq']
    simp only [Reports, split]
    by_cases zero : args.addr = 0
    · cases vma
      simp [zero, and_comm, Eq.comm]
    · simp [zero, Vma.Covers, or_and_right, exists_or]
  | @grown early late vma missed proceeds grows named split filled =>
    have back := grow_back (words vma (by simp [split])) long
    have positive : vma.vmEnd ≠ 0 := (Nat.zero_le _).trans_lt filled |>.ne'
    simp only [Honest, missed, proceeds, grows, some.injEq, forall_eq']
    simp only [Reports, back, split]
    simp [Vma.Covers, filled.le, positive, or_and_right, exists_or, or_left_comm]
  | linked missed proceeds stays areas counts cursor fresh =>
    simp only [Honest, missed, proceeds, stays, some.injEq, forall_eq', forall_const]
    rw [mmapLink_reports inv.areas _ areas counts, cursor, fresh.vmStart, fresh.vmEnd]
    split_ifs with floats <;> simp [floats]

theorem vmMmap_reports_anonymous : ∃ out, vmMmap userTask emptyMm (onePage 0) = some out ∧ out.1 ≠ 0 ∧
    Reports emptyMm out := by
  have honest : Honest userTask emptyMm (onePage 0) := by
    refine fun _ => ⟨fun _ => ⟨by decide, .inl (by decide)⟩, fun full => ?_⟩
    exact absurd ⟨by simp [emptyMm], by simp [emptyMm]⟩ full
  exact ⟨_, rfl, by decide, (vmMmap_reports_iff userTask emptyMm (onePage 0) emptyMm_inv (by simp [emptyMm])
    (by decide)).2
    honest _ rfl⟩

def takenBase : Mm := { emptyMm with mmap := [newVma (onePage userAnonymousAddr)] }

theorem vmMmap_fails_moving : MmInv takenBase ∧ ∃ out, vmMmap userTask takenBase (onePage 0) = some out ∧ out.1 = 0 ∧
    out.2.anonymousAddr ≠ takenBase.anonymousAddr :=
  ⟨⟨Separated.nil.cons (by decide) (by simp), .inl rfl, .inl ⟨rfl, rfl⟩⟩, _, rfl, by decide, by decide⟩

abbrev Within (start len addr : Nat) : Prop := start ≤ addr ∧ addr < start + len

-- What the areas must have for a call to be effective.
def Exact (task : Task) (mm : Mm) (args : MmapArgs) : Prop :=
  match holder mm.mmap args.addr args.len with
  | some vma => args.addr ≠ 0 -> ∀ addr < 2 ^ 64,
      (Within args.addr args.extent addr -> if vma.Covers addr then (vma.grant addr).2.2 = (args.grant args.addr addr).2.2
        else view mm.mmap addr = some (args.grant args.addr addr)) ∧
      (¬ Within args.addr args.len addr -> vma.Covers addr -> vma.vmProt = args.prot ∧ vma.vmFlags = args.flags)
  | none => args.Proceeds task ->
    match extended task mm args with
    | some vma => args.len = 0 ∨
        vma.vmEnd + args.len < 2 ^ 64 ∧ vma.vmProt = args.prot ∧ vma.vmFlags = args.flags ∧ vma.vmInode = none
    | none =>
      let start := target task mm args
      Room mm.mmap start (wrap (start + args.extent)) -> start ≠ 0 -> start + args.extent < 2 ^ 64 ∧
        (args.extent = 0 ∨ args.inode = none ∨ args.flags ||| mapFixed = args.flags)

end JinyKernel.Vm
