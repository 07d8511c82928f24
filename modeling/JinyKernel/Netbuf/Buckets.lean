import JinyKernel.Netbuf.Model
import JinyKernel.Shared.Filing

namespace JinyKernel.Netbuf

open Filing Function List Option Updates

inductive Holder where
  | cpu (cpu : Nat)
  | empty
  | full
  deriving DecidableEq

def Buckets.holding (buckets : Buckets) : Holder -> List Nat
  | .cpu cpu => (buckets.pageCache cpu).bucket.toList
  | .empty => buckets.emptyBuckets
  | .full => buckets.fullBuckets

structure Shelved (size : Nat) (buckets : Buckets) : Prop where
  exclusive : Exclusive buckets.holding
  everywhere : ∀ bucket, Somewhere buckets.holding bucket ↔ bucket < size
  empties : ∀ bucket ∈ buckets.emptyBuckets, buckets.stack bucket = []
  fulls : ∀ bucket ∈ buckets.fullBuckets, (buckets.stack bucket).length = maxStackSize
  bounded : ∀ bucket, (buckets.stack bucket).length ≤ maxStackSize
  raw : ∀ bucket, size ≤ bucket -> buckets.stack bucket = []

section

variable {size : Nat} {buckets after : Buckets} {cpu bucket other : Nat} {rest : List Nat}

theorem holding_cpu (owns : (buckets.pageCache cpu).bucket = some bucket) : buckets.holding (.cpu cpu) = [bucket] := by
  rw [Buckets.holding, owns]
  rfl

theorem Shelved.of_stack (shelved : Shelved size buckets) (stack : after.stack = buckets.stack)
    (placed : Exclusive after.holding ∧ ∀ b, Somewhere after.holding b ↔ b < size)
    (empties : ∀ b ∈ after.emptyBuckets, buckets.stack b = [])
    (fulls : ∀ b ∈ after.fullBuckets, (buckets.stack b).length = maxStackSize) : Shelved size after where
  exclusive := placed.1
  everywhere := placed.2
  empties b member := by rw [stack]; exact empties b member
  fulls b member := by rw [stack]; exact fulls b member
  bounded b := by rw [stack]; exact shelved.bounded b
  raw b above := by rw [stack]; exact shelved.raw b above

structure Served (size : Nat) (buckets after : Buckets) (cpu bucket : Nat) : Prop where
  shelved : Shelved size after
  stack : after.stack = buckets.stack
  owns : (after.pageCache cpu).bucket = some bucket

theorem setCpu_self (owns : (buckets.pageCache cpu).bucket = some bucket) :
    buckets.setCpu cpu { buckets.pageCache cpu with bucket := some bucket } = buckets := by
  rw [Buckets.setCpu, ← owns, update_eq_self]

theorem setCpu_others (cache : PercpuPagecache) {holder : Holder} (different : holder ≠ .cpu cpu) :
    (buckets.setCpu cpu cache).holding holder = buckets.holding holder := by
  cases holder with
  | cpu i =>
    have apart : i ≠ cpu := fun same => different (same ▸ rfl)
    simp [Buckets.holding, Buckets.setCpu, apart]
  | empty | full => rfl

theorem setCpu_own (cache : PercpuPagecache) :
    (buckets.setCpu cpu cache).holding (.cpu cpu) = cache.bucket.toList := by
  simp [Buckets.holding, Buckets.setCpu]

section

variable (shelved : Shelved size buckets)

include shelved

theorem Shelved.exchange (source target : Holder)
    (lists : source = .full ∧ target = .empty ∨ source = .empty ∧ target = .full)
    (owns : (buckets.pageCache cpu).bucket = some bucket) (first : buckets.holding source = other :: rest)
    (caches : after.pageCache = buckets.pageCache) (given : after.holding target = bucket :: buckets.holding target)
    (taken : after.holding source = rest) {cache : PercpuPagecache} (mine : cache.bucket = some other) :
    Exclusive (after.setCpu cpu cache).holding ∧ ∀ b, Somewhere (after.setCpu cpu cache).holding b ↔ b < size := by
  obtain ⟨apart, isList, isListToo⟩ : source ≠ target ∧ source ≠ .cpu cpu ∧ target ≠ .cpu cpu := by
    rcases lists with ⟨rfl, rfl⟩ | ⟨rfl, rfl⟩ <;> simp
  have moved := shelved.exclusive.move target (holding_cpu owns)
  have still : move buckets.holding (.cpu cpu) target bucket [] source = other :: rest := by
    rw [move, update_of_ne apart, update_of_ne isList, first]
  have same : (after.setCpu cpu cache).holding =
      move (move buckets.holding (.cpu cpu) target bucket []) source (.cpu cpu) other rest := by
    funext holder
    by_cases own : holder = .cpu cpu
    · simp [own, setCpu_own, mine, move, isList.symm, isListToo.symm]
    rw [setCpu_others _ own]
    by_cases isSource : holder = source
    · simp [isSource, taken, move, isList]
    by_cases isTarget : holder = target
    · simp [isTarget, given, move, isListToo, apart.symm]
    · rcases lists with ⟨rfl, rfl⟩ | ⟨rfl, rfl⟩ <;> cases holder <;> simp_all [move, Buckets.holding]
  rw [same]
  refine ⟨moved.move _ still, fun b => ?_⟩
  rw [moved.somewhere_move _ still, shelved.exclusive.somewhere_move _ (holding_cpu owns), shelved.everywhere b]

theorem getBucket_spec (owns : (buckets.pageCache cpu).bucket = some bucket)
    (edge : buckets.stack bucket = [] ∨ (buckets.stack bucket).length = maxStackSize)
    (got : getBucket buckets bucket = (other, after)) :
    Served size buckets (after.setCpu cpu { after.pageCache cpu with bucket := some other }) cpu other := by
  have kept : (bucket, buckets) = (other, after) ->
      Served size buckets (after.setCpu cpu { after.pageCache cpu with bucket := some other }) cpu other := by
    rintro same
    cases same
    rw [setCpu_self owns]
    exact ⟨shelved, rfl, owns⟩
  rw [getBucket] at got
  split at got
  next empty =>
    cases full : buckets.fullBuckets with
    | nil =>
      rw [full] at got
      exact kept got
    | cons first rest =>
      rw [full] at got
      cases got
      refine ⟨shelved.of_stack rfl
        (shelved.exchange .full .empty (.inl ⟨rfl, rfl⟩) owns full (by rfl) rfl rfl (by rfl)) ?_ ?_, rfl, ?_⟩
      · intro b member
        rcases mem_cons.1 member with rfl | old
        · exact empty
        · exact shelved.empties b old
      · intro b member
        exact shelved.fulls b (full ▸ mem_cons_of_mem _ member)
      · simp [Buckets.setCpu]
  next used =>
    have isFull := edge.resolve_left used
    cases empties : buckets.emptyBuckets with
    | nil =>
      rw [empties] at got
      exact kept got
    | cons first rest =>
      rw [empties] at got
      cases got
      refine ⟨shelved.of_stack rfl
        (shelved.exchange .empty .full (.inr ⟨rfl, rfl⟩) owns empties (by rfl) rfl rfl (by rfl)) ?_ ?_, rfl, ?_⟩
      · intro b member
        exact shelved.empties b (empties ▸ mem_cons_of_mem _ member)
      · intro b member
        rcases mem_cons.1 member with rfl | old
        · exact isFull
        · exact shelved.fulls b old
      · simp [Buckets.setCpu]

theorem serving_spec {spent : List Nat -> Bool}
    (edge : ∀ b, spent (buckets.stack b) = true -> buckets.stack b = [] ∨ (buckets.stack b).length = maxStackSize)
    (served : serving buckets cpu spent = some (bucket, after)) : Served size buckets after cpu bucket := by
  rw [serving] at served
  split_ifs at served
  split at served
  next => cases served
  next own owns =>
    split at served
    next exhausted =>
      cases served
      exact getBucket_spec shelved owns (edge own exhausted) rfl
    cases served
    exact ⟨shelved, rfl, owns⟩

theorem Shelved.restack (owns : (buckets.pageCache cpu).bucket = some bucket)
    {stack : List Nat} (bounded : stack.length ≤ maxStackSize) {cache : PercpuPagecache}
    (same : cache.bucket = some bucket) : Shelved size ((buckets.setStack bucket stack).setCpu cpu cache) := by
  have mine : bucket ∈ buckets.holding (.cpu cpu) := by
    rw [holding_cpu owns]
    exact mem_cons_self
  have holding : ((buckets.setStack bucket stack).setCpu cpu cache).holding = buckets.holding := by
    funext holder
    by_cases own : holder = .cpu cpu
    · rw [own, setCpu_own, same, holding_cpu owns]
      rfl
    · rw [setCpu_others _ own]
      cases holder <;> rfl
  have apart (holder : Holder) (isList : Holder.cpu cpu ≠ holder) {b : Nat} (member : b ∈ buckets.holding holder) :
      b ≠ bucket := by
    rintro rfl
    exact isList (shelved.exclusive.single mine member)
  have raw : bucket < size := (shelved.everywhere bucket).1 ⟨_, mine⟩
  refine ⟨holding ▸ shelved.exclusive, fun b => by rw [holding]; exact shelved.everywhere b, ?_, ?_, ?_, ?_⟩
  · intro b member
    have other := apart .empty (by simp) member
    simpa [Buckets.setStack, Buckets.setCpu, other] using shelved.empties b member
  · intro b member
    have other := apart .full (by simp) member
    simpa [Buckets.setStack, Buckets.setCpu, other] using shelved.fulls b member
  · intro b
    by_cases here : b = bucket
    · simpa [Buckets.setStack, Buckets.setCpu, here] using bounded
    · simpa [Buckets.setStack, Buckets.setCpu, here] using shelved.bounded b
  · intro b above
    have other : b ≠ bucket := by omega
    simpa [Buckets.setStack, Buckets.setCpu, other] using shelved.raw b above

theorem allocCached_spec {answer : Option Nat} (got : allocCached buckets cpu = (answer, after)) :
    Shelved size after ∧ (answer = none -> after.stack = buckets.stack) ∧ ∀ p, answer = some p ->
      ∃ bucket rest, buckets.stack bucket = p :: rest ∧ after.stack = update buckets.stack bucket rest := by
  rw [allocCached] at got
  split at got
  next =>
    cases got
    exact ⟨shelved, fun _ => rfl, nofun⟩
  next bucket middle served =>
    have spec := serving_spec shelved (fun b empty => Or.inl (isEmpty_iff.1 empty)) served
    split at got
    next =>
      cases got
      exact ⟨spec.shelved, fun _ => spec.stack, nofun⟩
    next top rest stack =>
      cases got
      have bounded := spec.shelved.bounded bucket
      rw [stack, length_cons] at bounded
      refine ⟨spec.shelved.restack spec.owns (by omega) spec.owns, nofun, ?_⟩
      rintro p ⟨⟩
      rw [spec.stack] at stack
      exact ⟨bucket, rest, stack, by rw [← spec.stack]; rfl⟩

theorem freeCached_spec {p : Nat} {taken : Bool}
    (got : freeCached buckets cpu p = (taken, after)) :
    Shelved size after ∧ (taken = true -> ∃ bucket,
      after.stack = update buckets.stack bucket (p :: buckets.stack bucket)) ∧
      (taken = false -> after.stack = buckets.stack) := by
  rw [freeCached] at got
  split at got
  next =>
    cases got
    exact ⟨shelved, by simp, fun _ => rfl⟩
  next bucket middle served =>
    have spec := serving_spec shelved (fun b long => Or.inr (by
      have bounded := shelved.bounded b
      have reached := of_decide_eq_true long
      omega)) served
    split at got
    next room =>
      cases got
      refine ⟨spec.shelved.restack spec.owns (by rw [length_cons]; omega) spec.owns, fun _ => ⟨bucket, ?_⟩, by simp⟩
      rw [← spec.stack]
      rfl
    next =>
      cases got
      exact ⟨spec.shelved, by simp, fun _ => spec.stack⟩

theorem assignBucket_spec (fresh : (buckets.pageCache cpu).bucket = none) :
    Shelved size (assignBucket buckets cpu) ∧
      ∀ i, i ≠ cpu -> (assignBucket buckets cpu).pageCache i = buckets.pageCache i := by
  rw [assignBucket]
  split
  next => exact ⟨shelved, fun _ _ => rfl⟩
  next first rest empties =>
    have listed : buckets.holding .empty = first :: rest := empties
    have moved := shelved.exclusive.move (.cpu cpu) listed
    have holding : Buckets.holding { buckets with
        emptyBuckets := rest
        pageCache := update buckets.pageCache cpu { buckets.pageCache cpu with bucket := some first } } =
        move buckets.holding .empty (.cpu cpu) first rest := by
      funext holder
      cases holder with
      | cpu i =>
        by_cases own : i = cpu
        · subst own
          simp [move, Buckets.holding, fresh]
        · simp [move, Buckets.holding, own]
      | empty | full => simp [move, Buckets.holding]
    refine ⟨shelved.of_stack rfl ⟨holding ▸ moved, fun b => ?_⟩ ?_ shelved.fulls, fun i other => ?_⟩
    · rw [holding, shelved.exclusive.somewhere_move _ listed, shelved.everywhere b]
    · intro b member
      exact shelved.empties b (empties ▸ mem_cons_of_mem _ member)
    · exact update_of_ne other ..

end

theorem assignBuckets_spec (cpus : List Nat) (distinct : cpus.Nodup) (shelved : Shelved size buckets)
    (fresh : ∀ cpu ∈ cpus, (buckets.pageCache cpu).bucket = none) : Shelved size (cpus.foldl assignBucket buckets) := by
  induction cpus generalizing buckets with
  | nil => exact shelved
  | cons cpu rest ih =>
    obtain ⟨absent, distinct⟩ := nodup_cons.1 distinct
    obtain ⟨assigned, others⟩ := assignBucket_spec shelved (fresh cpu mem_cons_self)
    refine ih distinct assigned fun i member => ?_
    rw [others i fun same => absent (same ▸ member)]
    exact fresh i (mem_cons_of_mem _ member)

end

theorem initPercpuPageCache_shelved (maxCpus : Nat) : Shelved (maxBuckets maxCpus) (initPercpuPageCache maxCpus) := by
  refine assignBuckets_spec _ nodup_range ?_ fun _ _ => rfl
  constructor
  · constructor
    · intro holder
      cases holder with
      | cpu => exact nodup_nil
      | empty => exact nodup_reverse.2 nodup_range
      | full => exact nodup_nil
    · intro holder other bucket here there
      cases holder <;> cases other <;> simp_all [Buckets.holding]
  · intro bucket
    constructor
    · rintro ⟨holder, member⟩
      cases holder <;> simp_all [Buckets.holding]
    · intro below
      exact ⟨.empty, by simpa [Buckets.holding] using below⟩
  · exact fun _ _ => rfl
  · exact fun _ member => nomatch member
  · exact fun _ => Nat.zero_le _
  · exact fun _ _ => rfl

theorem initPercpuPageCache_blank (maxCpus : Nat) : (∀ bucket, (initPercpuPageCache maxCpus).stack bucket = []) ∧
    ∀ cpu, ((initPercpuPageCache maxCpus).pageCache cpu).count = 0 := by
  have kept (cpus : List Nat) (buckets : Buckets) : (cpus.foldl assignBucket buckets).stack = buckets.stack ∧
      ∀ cpu, ((cpus.foldl assignBucket buckets).pageCache cpu).count = (buckets.pageCache cpu).count := by
    induction cpus generalizing buckets with
    | nil => exact ⟨rfl, fun _ => rfl⟩
    | cons first rest ih =>
      have later := ih (assignBucket buckets first)
      rw [foldl_cons]
      rw [assignBucket] at later ⊢
      split at later
      · exact later
      · exact ⟨later.1, fun cpu => (later.2 cpu).trans (same PercpuPagecache.count (by rfl) cpu)⟩
  have linked := kept (range maxCpus)
  exact ⟨fun bucket => congrFun (linked _).1 bucket, (linked _).2⟩

end JinyKernel.Netbuf
