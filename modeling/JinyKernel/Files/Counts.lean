import JinyKernel.Shared.Census
import JinyKernel.Files.Bounds

namespace JinyKernel.Files

open Census Function Option

def File.target (file : File) : Option Nat := if file.type.counted then some file.vinode else none

def Fs.refers (fs : Fs) (i : Nat) : Option Nat := if fs.filep i = 0 then none else (fs.file (fs.filep i)).target

def entries (fs : Fs) (addr : Nat) : Nat := census maxFds fs.refers addr

def refs : Option Object -> Int
  | none => 0
  | some object => object.count

-- The count of an inode may hold references that no entry accounts for.
def Balanced : Option Object -> Nat -> Prop
  | none, used => used = 0
  | some object, used => (used : Int) ≤ object.count ∧ (object.kind ≠ .inode -> object.count = used ∧ 0 < used)

variable {used : Nat} {object : Object}

theorem Object.close_eq (object : Object) : object.close = none ∧ object.count ≤ 1 ∧
      (object.kind = .inode -> object.nrpages = 0) ∨
    object.close = some { object with count := object.count - 1 } ∧
      (1 < object.count ∨ object.kind = .inode ∧ object.nrpages ≠ 0) := by
  by_cases goes : object.count - 1 ≤ 0 ∧ (object.kind = .inode -> object.nrpages = 0)
  · exact .inl ⟨if_pos goes, by omega, goes.2⟩
  refine .inr ⟨if_neg goes, ?_⟩
  by_contra neither
  rw [not_or, not_and_or, not_not] at neither
  exact goes ⟨by omega, fun inode => neither.2.resolve_left (not_not.2 inode)⟩

theorem Balanced.close {left : Nat} (balanced : Balanced (some object) (left + 1)) : Balanced object.close left := by
  obtain ⟨covered, others⟩ := balanced
  rcases object.close_eq with ⟨gone, last, _⟩ | ⟨stays, more⟩
  · rw [gone]
    have empty : left = 0 := by omega
    exact empty
  rw [stays]
  refine ⟨by dsimp only; omega, fun other => ?_⟩
  have counted := (others other).1
  dsimp only
  rcases more with more | ⟨inode, _⟩
  · omega
  · exact absurd inode other

theorem Balanced.inc (balanced : Balanced (some object) used) : Balanced (some object.inc) (used + 1) := by
  obtain ⟨covered, others⟩ := balanced
  refine ⟨by simp only [Object.inc]; omega, fun other => ?_⟩
  have counted := (others other).1
  simp only [Object.inc]
  omega

theorem Object.close_inc (stays : object.close ≠ none) : object.close.map Object.inc = some object := by
  rcases object.close_eq with ⟨gone, _⟩ | ⟨closed, _⟩
  · exact absurd gone stays
  · rw [closed, map_some, Object.inc, Int.sub_add_cancel]

theorem Balanced.close_ne (balanced : Balanced (some object) used) (two : 2 ≤ used) : object.close ≠ none := by
  obtain ⟨covered, _⟩ := balanced
  rcases object.close_eq with ⟨_, last, _⟩ | ⟨closed, _⟩
  · omega
  · simp [closed]

-- What a call does to an object and to its entries. Where the counts are `fair`, a last entry takes its object
-- with it, and a new object has the reference of its entry only.
inductive Shift (fair : Prop) : Option Object -> Option Object -> Nat -> Nat -> Prop
  | same (object : Option Object) (used : Nat) : Shift fair object object used used
  | inc (object : Object) (used : Nat) : Shift fair (some object) (some object.inc) used (used + 1)
  | close (object : Object) (left : Nat) (last : fair -> left = 0 -> object.close = none) :
      Shift fair (some object) object.close (left + 1) left
  | reopen (object : Object) (used : Nat) : Shift fair (some object) object.inc.close used used
  | page (object : Object) (used nrpages : Nat) (inode : object.kind = .inode) :
      Shift fair (some object) (some { object with nrpages := nrpages }) used used
  | new (object : Object) (covered : 1 ≤ object.count) (single : object.kind ≠ .inode ∨ fair -> object.count = 1) :
      Shift fair none (some object) 0 1
  | stray (never : ¬ fair) : Shift fair none (some ⟨.inode, 1, 0⟩) 0 0

section

variable {fair : Prop} {before after : Option Object} {left : Nat}

theorem Shift.balanced (shift : Shift fair before after used left) (balanced : Balanced before used) :
    Balanced after left := by
  cases shift with
  | same => exact balanced
  | inc => exact balanced.inc
  | close => exact balanced.close
  | reopen => exact balanced.inc.close
  | page _ _ _ inode => exact ⟨balanced.1, fun other => absurd inode other⟩
  | new _ covered single => exact ⟨covered, fun other => ⟨single (.inl other), Nat.one_pos⟩⟩
  | stray => exact ⟨by decide, fun other => absurd rfl other⟩

theorem Shift.exact (shift : Shift fair before after used left) (balanced : Balanced before used) (holds : fair) :
    refs after - refs before = (left : Int) - used ∧ (0 < used -> (after = none ↔ left = 0)) := by
  cases shift with
  | same =>
    refine ⟨by omega, fun positive => ?_⟩
    cases before with
    | none => exact absurd balanced positive.ne'
    | some object => simp [positive.ne']
  | inc => exact ⟨by simp only [refs, Object.inc]; omega, by simp⟩
  | close object _ last =>
    have covered := balanced.1
    rcases object.close_eq with ⟨gone, most, _⟩ | ⟨stays, _⟩
    · rw [gone]
      exact ⟨by simp only [refs]; omega, fun _ => ⟨fun _ => by omega, fun _ => rfl⟩⟩
    · refine ⟨by rw [stays]; simp only [refs]; omega, fun _ => ⟨fun gone => ?_, last holds⟩⟩
      cases stays.symm.trans gone
  | reopen object =>
    have covered := balanced.1
    rcases object.inc.close_eq with ⟨gone, most, _⟩ | ⟨stays, _⟩
    · rw [gone]
      simp only [refs, Object.inc] at most ⊢
      exact ⟨by omega, fun positive => by omega⟩
    · rw [stays]
      exact ⟨by simp only [refs, Object.inc]; omega, fun positive => by simp [positive.ne']⟩
  | page => exact ⟨by simp only [refs]; omega, fun positive => by simp [positive.ne']⟩
  | new _ _ single => exact ⟨by simp [refs, single (.inr holds)], by simp⟩
  | stray never => exact absurd holds never

end

def inc (objects : Nat -> Option Object) : Option Nat -> Nat -> Option Object
  | none => objects
  | some addr => update objects addr ((objects addr).map Object.inc)

def dec (objects : Nat -> Option Object) : Option Nat -> Nat -> Option Object
  | none => objects
  | some addr => update objects addr ((objects addr).bind Object.close)

section

variable (objects : Nat -> Option Object)

include objects

theorem dec_update (addr : Nat) (object : Option Object) :
    dec (update objects addr object) (some addr) = update objects addr (object.bind Object.close) := by
  simp [dec]

theorem retain_eq (file : File) : retain objects file = inc objects file.target := by
  rw [retain, File.target]
  split_ifs <;> rfl

theorem release_eq (file : File) :
    release FileType.counted objects file = dec objects file.target := by
  rw [release, File.target]
  split_ifs <;> rfl

theorem inc_self (addr : Nat) :
    inc objects (some addr) addr = (objects addr).map Object.inc := update_self ..

theorem inc_other {target : Option Nat} {addr : Nat} (other : target ≠ some addr) :
    inc objects target addr = objects addr := by
  cases target with
  | none => rfl
  | some named => exact update_of_ne (fun same => other (by rw [same])) ..

theorem dec_self (addr : Nat) :
    dec objects (some addr) addr = (objects addr).bind Object.close := update_self ..

theorem dec_other {target : Option Nat} {addr : Nat} (other : target ≠ some addr) :
    dec objects target addr = objects addr := by
  cases target with
  | none => rfl
  | some named => exact update_of_ne (fun same => other (by rw [same])) ..

end

structure Counted (fs : Fs) : Prop where
  table : TableInv fs
  balanced : ∀ addr, Balanced (fs.object addr) (entries fs addr)

theorem absent_unused {fs : Fs} {addr : Nat} (balanced : Balanced (fs.object addr) (entries fs addr))
    (absent : fs.object addr = none) : entries fs addr = 0 := by
  rw [absent] at balanced
  exact balanced

variable {fs next : Fs} {i : Nat}

theorem refers_free (free : fs.filep i = 0) : fs.refers i = none := if_pos free

theorem refers_used (used : fs.filep i ≠ 0) : fs.refers i = (fs.file (fs.filep i)).target := if_neg used

theorem refers_congr {j : Nat} (entry : next.filep j = fs.filep j)
    (file : fs.filep j ≠ 0 -> next.file (fs.filep j) = fs.file (fs.filep j)) : next.refers j = fs.refers j := by
  by_cases free : fs.filep j = 0
  · rw [refers_free free, refers_free (entry.trans free)]
  · rw [refers_used free, refers_used (entry ▸ free), entry, file free]

theorem spared_refers (spared : Spared fs next) : next.refers = fs.refers :=
  funext fun i => refers_congr (congrFun spared.filep i) (spared.file i)

theorem install_refers {fp : Nat} (got : fp ≠ 0) (fresh : Fresh fs fp) (file : File) (objects : Nat -> Option Object) :
    (install fs i fp file objects).refers = update fs.refers i file.target := by
  funext j
  by_cases here : j = i
  · subst here
    simp [Fs.refers, install, got]
  · rw [update_of_ne here]
    exact refers_congr (update_of_ne here ..) fun used => update_of_ne (fresh j used) ..

theorem rebind_refers (inv : TableInv fs) (used : fs.filep i ≠ 0) (file : File) :
    (rebind fs (fs.filep i) file).refers = update fs.refers i file.target := by
  funext j
  by_cases here : j = i
  · subst here
    simp [Fs.refers, rebind, used]
  · rw [update_of_ne here]
    exact refers_congr rfl fun busy => update_of_ne (fun same => here (inv.distinct j i busy same)) ..

theorem detach_refers (inv : TableInv fs) (i : Nat) : (detach fs i).refers = update fs.refers i none := by
  funext j
  by_cases here : j = i
  · subst here
    simp [Fs.refers, detach]
  · rw [update_of_ne here]
    exact refers_congr (update_of_ne here ..) fun busy =>
      update_of_ne (fun same => here (inv.distinct j i busy same)) ..

theorem entries_update (within : i < maxFds) {target : Option Nat} (moved : next.refers = update fs.refers i target)
    (addr : Nat) : entries next addr + (if fs.refers i = some addr then 1 else 0) =
      entries fs addr + if target = some addr then 1 else 0 := by
  rw [entries, moved]
  exact census_update fs.refers addr within target

theorem target_alive (counted : Counted fs) {addr : Nat} (within : i < maxFds) (refers : fs.refers i = some addr) :
    fs.object addr ≠ none :=
  fun gone => absurd (absent_unused (counted.balanced addr) gone) (Nat.ne_of_gt (census_pos within refers))

theorem entries_congr (same : next.refers = fs.refers) : entries next = entries fs := by
  funext addr
  rw [entries, same, entries]

abbrev Shifts (fair : Prop) (fs next : Fs) : Prop :=
  ∀ addr, Shift fair (fs.object addr) (next.object addr) (entries fs addr) (entries next addr)

theorem settled {fair : Prop} {addr : Nat} {after : Option Object} (same : next.refers = fs.refers)
    (objects : next.object = update fs.object addr after)
    (here : Shift fair (fs.object addr) after (entries fs addr) (entries fs addr)) : Shifts fair fs next := by
  intro other
  rw [entries_congr same, objects]
  by_cases equal : other = addr
  · rw [equal, update_self]
    exact here
  · rw [update_of_ne equal]
    exact .same ..

section

variable {fair : Prop} (counted : Counted fs) (within : i < maxFds)

include counted within

theorem exchange {target : Option Nat} (moved : next.refers = update fs.refers i target)
    (objects : next.object = inc (dec fs.object (fs.refers i)) target)
    (alive : ∀ addr, target = some addr -> fs.object addr ≠ none)
    (outlives : ∀ addr, target = some addr -> fs.refers i = some addr -> (fs.object addr).bind Object.close ≠ none)
    (last : ∀ addr object, fs.refers i = some addr -> target ≠ some addr -> fs.object addr = some object -> fair ->
      entries fs addr = 1 -> object.close = none) : Shifts fair fs next := by
  intro addr
  have change := entries_update within moved addr
  rw [objects]
  by_cases leaves : fs.refers i = some addr
  · rw [if_pos leaves] at change
    obtain ⟨object, present⟩ := ne_none_iff_exists'.1 (target_alive counted within leaves)
    split_ifs at change with enters
    · have stays := outlives addr enters leaves
      rw [present] at stays
      rw [leaves, enters, inc_self, dec_self, present, bind_some, Object.close_inc stays, Nat.add_right_cancel change]
      exact .same ..
    · have one : entries fs addr = entries next addr + 1 := by omega
      rw [inc_other _ enters, leaves, dec_self, present, bind_some, one]
      exact .close object _ fun holds zero => last addr object leaves enters present holds (by omega)
  · rw [if_neg leaves, Nat.add_zero] at change
    split_ifs at change with enters
    · obtain ⟨object, present⟩ := ne_none_iff_exists'.1 (alive addr enters)
      rw [enters, inc_self, dec_other _ leaves, present, map_some, change]
      exact .inc ..
    · rw [inc_other _ enters, dec_other _ leaves, change, Nat.add_zero]
      exact .same ..

theorem created (free : fs.refers i = none) {addr : Nat} (moved : next.refers = update fs.refers i (some addr))
    (new : fs.object addr = none) (objects : next.object = update fs.object addr (some object))
    (covered : 1 ≤ object.count) (single : object.kind ≠ .inode ∨ fair -> object.count = 1) :
    Shifts fair fs next ∧ ∀ other ≠ addr, next.object other = fs.object other ∧
      entries next other = entries fs other := by
  have change (other : Nat) := entries_update within moved other
  simp only [free, reduceCtorEq, if_false, Nat.add_zero] at change
  have others : ∀ other ≠ addr, next.object other = fs.object other ∧ entries next other = entries fs other := by
    intro other apart
    rw [objects, update_of_ne apart, change, if_neg fun same => apart (some.inj same).symm]
    exact ⟨rfl, Nat.add_zero _⟩
  refine ⟨fun other => ?_, others⟩
  by_cases here : other = addr
  · rw [here, objects, new, update_self, change, absent_unused (counted.balanced addr) new, if_pos rfl, Nat.zero_add]
    exact .new object covered single
  · rw [(others other here).1, (others other here).2]
    exact .same ..

theorem copied {alloc : Nat} (free : fs.filep i = 0) (got : alloc ≠ 0) (fresh : Fresh fs alloc) {file : File}
    (alive : ∀ addr, file.target = some addr -> fs.object addr ≠ none) :
    Shifts fair fs (install fs i alloc file (inc fs.object file.target)) := by
  have unnamed := refers_free free
  refine exchange counted within (install_refers got fresh ..) ?_ alive (fun addr _ refers => ?_) fun addr _ refers => ?_
  · rw [unnamed]
    rfl
  all_goals
    rw [unnamed] at refers
    cases refers

end

end JinyKernel.Files
