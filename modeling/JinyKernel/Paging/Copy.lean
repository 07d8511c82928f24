import JinyKernel.Paging.Model
import JinyKernel.Shared.Radix

namespace JinyKernel.Paging

open Function List Option Radix

variable (entries : List Nat)

def kernelEntry (level index entry : Nat) : Bool :=
  level = kernelPagesLevel &&
    (index = 0 && physAddr entry = bootTable || checkKernelPtableEntry entries (physAddr entry))

def userFormat : Format where
  width := 512
  read level index entry :=
    if present entry = false then .empty
    else if isLeaf level entry then .leaf
    else if kernelEntry entries level index entry then .empty
    else .link (frameOf entry)

abbrev UserReaches : (Nat -> Nat -> Nat) -> Nat -> Nat -> Nat -> Prop :=
  Reaches (userFormat entries) pagesOf

-- What `mk_pte`, `mk_pde` and the links `| 7` leave.
def BuiltEntry (level index entry : Nat) : Prop :=
  entry ≠ 0 -> kernelEntry entries level index entry = false ->
    present entry = true ∧ (level = 2 -> ps entry = true -> frameOf entry % 512 = 0)

instance (entries : List Nat) (level index entry : Nat) : Decidable (BuiltEntry entries level index entry) :=
  inferInstanceAs (Decidable (_ -> _ -> _ ∧ (_ -> _ -> _)))

abbrev Built : (Nat -> Nat -> Nat) -> Nat -> Nat -> Prop :=
  Every (userFormat entries) (BuiltEntry entries)

variable {level index entry dest nv : Nat} {used : List Nat} {s t u : State}

theorem kernelEntry_iff {entries : List Nat} :
    kernelEntry entries level index entry = true ↔ level = kernelPagesLevel ∧
      (index = 0 ∧ physAddr entry = bootTable ∨ checkKernelPtableEntry entries (physAddr entry) = true) := by
  simp [kernelEntry]

theorem not_leaf_kernel {entries : List Nat} (leaf : isLeaf level entry = true) :
    kernelEntry entries level index entry = false := by
  by_cases same : level = kernelPagesLevel
  · subst same
    simp [isLeaf, kernelPagesLevel] at leaf
  · simp [kernelEntry, same]

theorem frameOf_link (frame flags : Nat) (small : flags < pageSize) : frameOf (frame * pageSize + flags) = frame := by
  simp only [frameOf, pageSize] at *
  omega

theorem frameOf_mul (frame : Nat) : frameOf (frame * pageSize) = frame := Nat.mul_div_cancel frame (by decide)

theorem frame_mem_pagesOf (level entry : Nat) : frameOf entry ∈ pagesOf level entry :=
  mem_range'_1.2 ⟨Nat.le_refl _, Nat.lt_add_of_pos_right (Nat.pow_pos (by decide))⟩

inductive EntryCopied (pc : PcRegion) (entries : List Nat) (before after : Nat -> Nat -> Nat) (fresh : List Nat)
    (below : Nat -> Nat -> Prop) (level index entry copy : Nat) : Prop where
  | empty (zero : entry = 0) (blank : copy = 0)
  | shared (used : entry ≠ 0) (leaf : isLeaf level entry = true) (cached : pc.isPcPaddr (physAddr entry) = true)
      (same : copy = entry)
  | page (used : entry ≠ 0) (leaf : isLeaf level entry = true) (anonymous : pc.isPcPaddr (physAddr entry) = false)
      (nv : Nat) (taken : nv ∈ fresh) (same : copy = nv * pageSize + entry % pageSize)
      (contents : after nv = before (frameOf entry))
  | kernel (used : entry ≠ 0) (inner : isLeaf level entry = false)
      (kept : kernelEntry entries level index entry = true) (same : copy = 0 ∨ copy = entry)
  | table (used : entry ≠ 0) (inner : isLeaf level entry = false)
      (user : kernelEntry entries level index entry = false) (nv : Nat) (taken : nv ∈ fresh)
      (same : copy = nv * pageSize + 7) (copied : below (frameOf entry) nv)

def Copied (pc : PcRegion) (entries : List Nat) (before after : Nat -> Nat -> Nat) (fresh : List Nat) :
    Nat -> Nat -> Nat -> Prop
  | 0, _, _ => True
  | level + 1, src, dest => ∀ index < 512, EntryCopied pc entries before after fresh
      (Copied pc entries before after fresh level) (level + 1) index (before src index) (after dest index)

section

variable {pc : PcRegion} {entries : List Nat} {before after later : Nat -> Nat -> Nat} {fresh more : List Nat}

theorem EntryCopied.mono {below deeper : Nat -> Nat -> Prop} {copy : Nat}
    (copied : EntryCopied pc entries before after fresh below level index entry copy) (grown : fresh ⊆ more)
    (same : ∀ frame ∈ fresh, later frame = after frame) (deep : ∀ src, ∀ nv ∈ fresh, below src nv -> deeper src nv) :
    EntryCopied pc entries before later more deeper level index entry copy := by
  cases copied with
  | empty none blank => exact .empty none blank
  | shared used leaf cached same => exact .shared used leaf cached same
  | page used leaf anonymous nv taken equal contents =>
    exact .page used leaf anonymous nv (grown taken) equal ((same nv taken).trans contents)
  | kernel used inner kept same => exact .kernel used inner kept same
  | table used inner user nv taken equal copied =>
    exact .table used inner user nv (grown taken) equal (deep _ nv taken copied)

theorem Copied.mono {src dest : Nat} (copied : Copied pc entries before after fresh level src dest)
    (grown : fresh ⊆ more) (same : ∀ frame ∈ fresh, later frame = after frame) (row : later dest = after dest) :
    Copied pc entries before later more level src dest := by
  induction level generalizing src dest with
  | zero => trivial
  | succ level ih =>
    intro index inside
    rw [row]
    exact (copied index inside).mono grown same fun _ nv taken copied => ih copied (same nv taken)

end

structure Took (dest : Nat) (used : List Nat) (s s' : State) : Prop where
  pool : s.pool = used ++ s'.pool
  entries : s'.kernelLevel3Entries = s.kernelLevel3Entries
  pgd : s'.mm.pgd = s.mm.pgd
  frame : ∀ frame, frame ≠ dest -> frame ∉ used -> s'.mem frame = s.mem frame

theorem Took.refl (dest : Nat) (s : State) : Took dest [] s s := ⟨rfl, rfl, rfl, fun _ _ _ => rfl⟩

theorem Took.trans {inner : Nat} {more : List Nat} (first : Took dest used s t) (second : Took inner more t u)
    (within : inner = dest ∨ inner ∈ used) : Took dest (used ++ more) s u where
  pool := by rw [first.pool, second.pool, append_assoc]
  entries := second.entries.trans first.entries
  pgd := second.pgd.trans first.pgd
  frame frame other spare := by
    rw [mem_append, not_or] at spare
    rw [second.frame frame (by rintro rfl; exact within.elim other spare.1) spare.2, first.frame frame other spare.1]

theorem Took.write (took : Took dest used s t) (index entry : Nat) : Took dest used s (t.write dest index entry) where
  __ := took
  frame frame other spare := by
    rw [State.write_row other, took.frame frame other spare]

-- The source still reads as in `before`, and neither `dest` nor a page of the pool belongs to it.
structure Ready (entries : List Nat) (before : Nat -> Nat -> Nat) (level src dest : Nat) (s : State) : Prop where
  known : s.kernelLevel3Entries = entries
  same : ∀ frame, UserReaches entries before level src frame -> s.mem frame = before frame
  distinct : s.pool.Nodup
  apart : ∀ frame ∈ s.pool, ¬ UserReaches entries before level src frame
  destApart : ¬ UserReaches entries before level src dest
  destTaken : dest ∉ s.pool

section

variable {entries : List Nat} {before : Nat -> Nat -> Nat} {level src dest : Nat} {s t : State} {used : List Nat}

-- What is below `src` is copied to a frame taken for it.
theorem Ready.took {deeper below nv : Nat} (ready : Ready entries before level src dest s) (took : Took dest used s t)
    (reach : ∀ {frame}, UserReaches entries before deeper below frame -> UserReaches entries before level src frame)
    (within : nv = dest ∨ nv ∈ used) : Ready entries before deeper below nv t := by
  obtain ⟨known, same, distinct, apart, destApart, destTaken⟩ := ready
  rw [took.pool] at distinct apart destTaken
  rw [nodup_append] at distinct
  have taken : ∀ frame ∈ used, ¬ UserReaches entries before level src frame := fun frame member =>
    apart frame (mem_append_left _ member)
  refine ⟨took.entries.trans known, fun frame reached => ?_, distinct.2.1,
    fun frame member reached => apart frame (mem_append_right _ member) (reach reached), ?_, fun member => ?_⟩
  · rw [took.frame frame (fun row => destApart (row ▸ reach reached)) fun member => taken frame member (reach reached),
      same frame (reach reached)]
  · exact fun reached => within.elim (fun row => destApart (row ▸ reach reached)) fun member =>
      taken nv member (reach reached)
  · exact within.elim (fun row => destTaken (mem_append_right _ (row ▸ member))) fun spare =>
      distinct.2.2 nv spare nv member rfl

end

theorem mmPagealloc_took (dest : Nat) (ran : mmPagealloc s = some (nv, t)) :
    Took dest [nv] s t ∧ t.mem = update s.mem nv fun _ => 0 := by
  rw [mmPagealloc] at ran
  cases answers : s.pool with
  | nil => simp [answers] at ran
  | cons frame rest =>
    simp only [answers, some.injEq, Prod.mk.injEq] at ran
    obtain ⟨rfl, rfl⟩ := ran
    refine ⟨⟨answers, rfl, rfl, fun other _ spare => ?_⟩, rfl⟩
    exact update_of_ne (fun same => spare (by simp [same])) _ _

def CopySpec (pc : PcRegion) (entries : List Nat) (before : Nat -> Nat -> Nat) (level : Nat) : Prop :=
  ∀ src dest s t, Ready entries before level src dest s -> Built entries before level src ->
    (∀ index < 512, s.mem dest index = 0) -> copyPagetable pc level src dest s = some t ->
    ∃ used, Took dest used s t ∧ Copied pc entries before t.mem used level src dest

section

variable {pc : PcRegion} {entries : List Nat} {before : Nat -> Nat -> Nat} {level src dest index : Nat} {s t : State}

variable (pc entries before level src dest index) in
def EntryDone (pages : List Nat) (s t : State) : Prop :=
  Took dest pages s t ∧ (∀ word, word ≠ index -> t.mem dest word = s.mem dest word) ∧
    EntryCopied pc entries before t.mem pages (Copied pc entries before t.mem pages level) (level + 1) index
      (before src index) (t.mem dest index)

theorem copyEntry_page (ready : Ready entries before (level + 1) src dest s) (inside : index < 512)
    (used : before src index ≠ 0) (leaf : isLeaf (level + 1) (before src index) = true)
    (anonymous : pc.isPcPaddr (physAddr (before src index)) = false)
    (reads : (userFormat entries).read (level + 1) index (before src index) = .leaf)
    (ran : mmPagealloc s = some (nv, u)) :
    EntryDone pc entries before level src dest index [nv] s ((u.copyPage nv (frameOf (before src index))).write dest
      index (nv * pageSize + before src index % pageSize)) := by
  obtain ⟨took, cleared⟩ := mmPagealloc_took dest ran
  have reached := reaches_leaf inside reads (frame_mem_pagesOf (level + 1) (before src index))
  have taken : nv ∈ s.pool := by simp [took.pool]
  have notDest : nv ≠ dest := fun same => ready.destTaken (same ▸ taken)
  have notSource : frameOf (before src index) ≠ nv := fun same => ready.apart nv taken (same ▸ reached)
  have notRow : frameOf (before src index) ≠ dest := fun same => ready.destApart (same ▸ reached)
  have copied : Took dest [nv] s (u.copyPage nv (frameOf (before src index))) := by
    refine { took with frame := fun frame other spare => ?_ }
    rw [← took.frame frame other spare]
    exact update_of_ne (fun same => spare (by simp [same])) _ _
  refine ⟨copied.write _ _, fun word other => ?_, .page used leaf anonymous nv (by simp) (State.write_word ..) ?_⟩
  · rw [State.write_word_ne other, State.copyPage_ne notDest.symm, cleared, update_of_ne notDest.symm]
  · rw [State.write_row notDest, State.copyPage_row,
      took.frame _ notRow (by simpa using notSource), ready.same _ reached]

theorem copyEntry_table (spec : CopySpec pc entries before level)
    (ready : Ready entries before (level + 1) src dest s)
    (built : Built entries before level (frameOf (before src index))) (inside : index < 512)
    (used : before src index ≠ 0) (inner : isLeaf (level + 1) (before src index) = false)
    (user : kernelEntry entries (level + 1) index (before src index) = false)
    (reads : (userFormat entries).read (level + 1) index (before src index) = .link (frameOf (before src index)))
    {v : State} (ran : mmPagealloc s = some (nv, u))
    (deeper : copyPagetable pc level (frameOf (before src index)) nv u = some v) :
    ∃ pages, EntryDone pc entries before level src dest index pages s (v.write dest index (nv * pageSize + 7)) := by
  obtain ⟨took, cleared⟩ := mmPagealloc_took dest ran
  obtain ⟨pages, deep, copied⟩ := spec _ nv u v (ready.took took (reaches_link inside reads) (by simp)) built
    (fun word _ => by rw [cleared, update_self]) deeper
  have whole := took.trans deep (by simp)
  have spare : dest ∉ nv :: pages := fun member => ready.destTaken (by
    rw [whole.pool]
    exact mem_append_left _ member)
  have untouched : ∀ frame ∈ nv :: pages, (v.write dest index (nv * pageSize + 7)).mem frame = v.mem frame :=
      fun frame member =>
    State.write_row fun same => spare (same ▸ member)
  refine ⟨nv :: pages, whole.write _ _, fun word other => ?_,
    .table used inner user nv (by simp) (State.write_word ..) ?_⟩
  · rw [mem_cons, not_or] at spare
    rw [State.write_word_ne other, deep.frame dest spare.1 spare.2, cleared, update_of_ne spare.1]
  · exact copied.mono (subset_cons_self ..) (fun frame member => untouched frame (mem_cons_of_mem _ member))
      (untouched nv mem_cons_self)

end

section

variable {pc : PcRegion} {entries : List Nat} {before : Nat -> Nat -> Nat} {level src dest : Nat} {s t : State}

theorem copyEntry_spec (spec : CopySpec pc entries before level) (ready : Ready entries before (level + 1) src dest s)
    (built : Built entries before (level + 1) src) (inside : index < 512) (blank : s.mem dest index = 0)
    (ran : copyEntry pc (copyPagetable pc level) (level + 1) src dest s index = some t) :
    ∃ pages, EntryDone pc entries before level src dest index pages s t := by
  obtain ⟨entryBuilt, belowBuilt⟩ := built index inside
  -- The cases of the code, in its order.
  simp only [copyEntry, ready.same src reaches_table, ready.known] at ran
  by_cases zero : before src index = 0
  · rw [if_pos zero] at ran
    cases ran
    exact ⟨[], .refl dest s, fun _ _ => rfl, .empty zero blank⟩
  rw [if_neg zero] at ran
  cases leaf : isLeaf (level + 1) (before src index) with
  | true =>
    have isPresent := (entryBuilt zero (not_leaf_kernel leaf)).1
    rw [if_pos leaf] at ran
    cases cached : pc.isPcPaddr (physAddr (before src index)) with
    | true =>
      rw [if_pos cached, some.injEq] at ran
      subst ran
      exact ⟨[], (Took.refl dest s).write _ _, fun word => State.write_word_ne,
        .shared zero leaf cached (State.write_word ..)⟩
    | false =>
      rw [if_neg (by simp [cached]), bind_eq_bind, bind_eq_some_iff] at ran
      obtain ⟨⟨nv, u⟩, allocated, done⟩ := ran
      cases done
      have reads : (userFormat entries).read (level + 1) index (before src index) = .leaf := by
        simp [userFormat, isPresent, leaf]
      exact ⟨[nv], copyEntry_page ready inside zero leaf cached reads allocated⟩
  | false =>
    rw [if_neg (by simp [leaf])] at ran
    by_cases boot : level + 1 = kernelPagesLevel ∧ index = 0 ∧ physAddr (before src index) = bootTable
    · rw [if_pos boot, some.injEq] at ran
      subst ran
      refine ⟨[], (Took.refl dest s).write _ _, fun word => State.write_word_ne,
        .kernel zero leaf ?_ (.inl (State.write_word ..))⟩
      exact kernelEntry_iff.2 ⟨boot.1, .inl boot.2⟩
    rw [if_neg boot] at ran
    by_cases linked : level + 1 = kernelPagesLevel ∧ checkKernelPtableEntry entries (physAddr (before src index))
    · rw [if_pos linked, some.injEq] at ran
      subst ran
      refine ⟨[], (Took.refl dest s).write _ _, fun word => State.write_word_ne,
        .kernel zero leaf ?_ (.inr (State.write_word ..))⟩
      exact kernelEntry_iff.2 ⟨linked.1, .inr linked.2⟩
    have user : kernelEntry entries (level + 1) index (before src index) = false := by
      rw [← Bool.not_eq_true, kernelEntry_iff]
      tauto
    have reads : (userFormat entries).read (level + 1) index (before src index) = .link (frameOf (before src index)) := by
      simp [userFormat, (entryBuilt zero user).1, leaf, user]
    rw [if_neg linked, bind_eq_bind, bind_eq_some_iff] at ran
    obtain ⟨⟨nv, u⟩, allocated, rest⟩ := ran
    obtain ⟨v, deeper, done⟩ := bind_eq_some_iff.1 rest
    cases done
    exact copyEntry_table spec ready (belowBuilt _ reads) inside zero leaf user reads allocated deeper

theorem copyEntries_spec (spec : CopySpec pc entries before level) (built : Built entries before (level + 1) src)
    {indices : List Nat} (distinct : indices.Nodup) (inside : ∀ index ∈ indices, index < 512)
    (ready : Ready entries before (level + 1) src dest s) (blank : ∀ index ∈ indices, s.mem dest index = 0)
    (ran : indices.foldlM (copyEntry pc (copyPagetable pc level) (level + 1) src dest) s = some t) :
    ∃ pages, Took dest pages s t ∧ (∀ word, word ∉ indices -> t.mem dest word = s.mem dest word) ∧
      ∀ index ∈ indices, EntryCopied pc entries before t.mem pages (Copied pc entries before t.mem pages level)
        (level + 1) index (before src index) (t.mem dest index) := by
  induction indices generalizing s with
  | nil =>
    cases ran
    exact ⟨[], .refl dest _, fun _ _ => rfl, by simp⟩
  | cons index rest ih =>
    rw [foldlM_cons, bind_eq_bind, bind_eq_some_iff] at ran
    obtain ⟨u, first, others⟩ := ran
    rw [nodup_cons] at distinct
    rw [forall_mem_cons] at inside blank
    obtain ⟨pages, took, row, copied⟩ := copyEntry_spec spec ready built inside.1 blank.1 first
    obtain ⟨more, later, rowLater, copiedLater⟩ := ih distinct.2 inside.2 (ready.took took id (.inl rfl))
      (fun word member => by
        rw [row word (fun same => distinct.1 (same ▸ member))]
        exact blank.2 word member) others
    -- The allocator has handed out the pages taken before.
    have kept : ∀ frame ∈ pages, t.mem frame = u.mem frame := by
      intro frame member
      have pool := ready.distinct
      have apart := ready.destTaken
      rw [took.pool] at apart
      rw [took.pool, later.pool] at pool
      refine later.frame frame (fun same => apart (mem_append_left _ (same ▸ member))) fun again => ?_
      exact (nodup_append.1 pool).2.2 frame member frame (mem_append_left _ again) rfl
    refine ⟨pages ++ more, took.trans later (.inl rfl), fun word absent => ?_, ?_⟩
    · rw [mem_cons, not_or] at absent
      rw [rowLater word absent.2, row word absent.1]
    rw [forall_mem_cons]
    constructor
    · rw [rowLater index distinct.1]
      exact copied.mono (subset_append_left ..) kept fun _ nv taken deep =>
        deep.mono (subset_append_left ..) kept (kept nv taken)
    · have grown : more ⊆ pages ++ more := subset_append_right ..
      exact fun word member => (copiedLater word member).mono grown (fun _ _ => rfl) fun _ _ _ deep =>
        deep.mono grown (fun _ _ => rfl) rfl

end

theorem copyPagetable_spec (pc : PcRegion) (entries : List Nat) (before : Nat -> Nat -> Nat) (level : Nat) :
    CopySpec pc entries before level := by
  induction level with
  | zero =>
    intro src dest s t _ _ _ ran
    cases ran
    exact ⟨[], .refl dest s, trivial⟩
  | succ level ih =>
    intro src dest s t ready built blank ran
    obtain ⟨pages, took, -, copied⟩ := copyEntries_spec ih built nodup_range
      (fun index => mem_range.1) ready (fun index member => blank index (mem_range.1 member)) ran
    exact ⟨pages, took, fun index inside => copied index (mem_range.2 inside)⟩

def copyCost : Nat -> Nat
  | 0 => 0
  | level + 1 => 512 * (1 + copyCost level)

variable {pc : PcRegion} {level : Nat} (src dest : Nat)

theorem mmPagealloc_returns (supplied : 0 < s.pool.length) :
    ∃ nv t, mmPagealloc s = some (nv, t) ∧ s.pool.length = t.pool.length + 1 := by
  cases answers : s.pool with
  | nil => simp [answers] at supplied
  | cons frame rest => exact ⟨frame, _, by rw [mmPagealloc, answers], rfl⟩

section

variable (deeper : ∀ src dest s, copyCost level ≤ s.pool.length -> ∃ t, copyPagetable pc level src dest s = some t ∧
  s.pool.length ≤ t.pool.length + copyCost level)

include deeper

theorem copyEntry_returns (index : Nat) (supplied : 1 + copyCost level ≤ s.pool.length) :
    ∃ t, copyEntry pc (copyPagetable pc level) (level + 1) src dest s index = some t ∧
      s.pool.length ≤ t.pool.length + (1 + copyCost level) := by
  obtain ⟨nv, u, allocated, left⟩ := mmPagealloc_returns (s := s) (by omega)
  obtain ⟨v, copied, rest⟩ := deeper (frameOf (s.mem src index)) nv u (by omega)
  rw [copyEntry, allocated]
  simp only [bind_eq_bind, bind_some, copied]
  split_ifs
  · exact ⟨s, rfl, by omega⟩
  all_goals exact ⟨_, rfl, by simp only [State.write_pool, State.copyPage_pool]; omega⟩

theorem copyEntries_returns (indices : List Nat)
    (supplied : indices.length * (1 + copyCost level) ≤ s.pool.length) :
    ∃ t, indices.foldlM (copyEntry pc (copyPagetable pc level) (level + 1) src dest) s = some t ∧
      s.pool.length ≤ t.pool.length + indices.length * (1 + copyCost level) := by
  induction indices generalizing s with
  | nil => exact ⟨s, rfl, by simp⟩
  | cons index rest ih =>
    rw [length_cons, Nat.succ_mul] at supplied ⊢
    obtain ⟨t, first, used⟩ := copyEntry_returns src dest deeper index (s := s) (by omega)
    obtain ⟨u, others, usedLater⟩ := ih (s := t) (by omega)
    exact ⟨u, by rw [foldlM_cons, first, bind_eq_bind, bind_some, others], by omega⟩

end

theorem copyPagetable_returns (pc : PcRegion) (level src dest : Nat) (s : State)
    (supplied : copyCost level ≤ s.pool.length) :
    ∃ t, copyPagetable pc level src dest s = some t ∧ s.pool.length ≤ t.pool.length + copyCost level := by
  induction level generalizing src dest s with
  | zero => exact ⟨s, rfl, Nat.le_refl _⟩
  | succ level ih =>
    obtain ⟨t, ran, used⟩ := copyEntries_returns src dest ih (List.range 512) (s := s)
      (by rwa [length_range])
    exact ⟨t, ran, by rwa [length_range] at used⟩

end JinyKernel.Paging
