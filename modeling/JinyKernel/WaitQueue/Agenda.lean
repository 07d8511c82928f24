import JinyKernel.Shared.Deltas
import JinyKernel.WaitQueue.Model

namespace JinyKernel.WaitQueue

open List Deltas

structure Request where
  task : Nat
  ticks : Long
  since : Nat
  arrival : Nat

def Request.deadline (request : Request) : Int := request.since + request.ticks.toInt

def Before (a b : Request) : Prop :=
  a.deadline < b.deadline ∨ a.deadline = b.deadline ∧ a.arrival < b.arrival

abbrev Later (a b : Request) : Prop := a.deadline < b.deadline

def long (value : Int) : Long := BitVec.ofInt 64 value

-- What is left until `deadline` fits into a `long`.
def Near (now deadline : Int) : Prop := -2 ^ 63 ≤ deadline - now ∧ deadline - now < 2 ^ 63

variable (now : Int)

variable (agenda : List Request)

abbrev stored : Queue :=
  encode Request.task (fun request => long request.deadline) (long now) agenda

def drop (p : Nat) (agenda : List Request) : List Request := agenda.eraseP fun request => request.task = p

def expire : List Request -> Option Nat × List Request
  | [] => (none, [])
  | first :: rest => if first.deadline ≤ now then (some first.task, rest) else (none, first :: rest)

theorem expire_sublist : (expire now agenda).2.Sublist agenda := by
  cases agenda with
  | nil => exact .slnil
  | cons first rest =>
    rw [expire]
    split_ifs
    · exact sublist_cons_self ..
    · exact .refl _

theorem long_add (a b : Int) : long (a + b) = long a + long b := BitVec.ofInt_add a b

theorem toInt_gap {now deadline : Int} (near : Near now deadline) :
    (long deadline - long now).toInt = deadline - now := by
  rw [long, long, BitVec.toInt_sub, BitVec.toInt_ofInt, BitVec.toInt_ofInt, ← Int.sub_bmod]
  obtain ⟨low, high⟩ := near
  exact Int.bmod_eq_of_le (by omega) (by omega)

theorem Before.deadline_le {a b : Request} (before : Before a b) : a.deadline ≤ b.deadline := by
  rcases before with earlier | ⟨same, _⟩
  · exact earlier.le
  · exact same.le

variable {now} {agenda} in
theorem sums_stored (near : ∀ request ∈ agenda, Near now request.deadline) :
    (sums 0 (stored now agenda)).map BitVec.toInt = agenda.map fun request => request.deadline - now := by
  have read : sums (long now - long now) (stored now agenda) = _ := sums_encode (long now) (long now) agenda
  rw [sub_self] at read
  rw [read, map_map]
  exact map_congr_left fun request among => toInt_gap (near request among)

theorem addLoop_stored {now : Int} (base : Int) {agenda : List Request} {new : Request} {ticks : Long}
    (due : new.deadline = now + ticks.toInt) (near : ∀ request ∈ agenda, Near now request.deadline) :
    addLoop new.task ticks (long base - long now) (stored base agenda) =
      stored base (agenda.orderedInsert Later new) := by
  have asked : long new.deadline = long now + ticks := by
    rw [due, long_add]
    exact congrArg _ (BitVec.ofInt_toInt)
  have ticksLeft (base : Int) : ticks - (long base - long now) = long new.deadline - long base := by
    rw [asked]
    abel
  induction agenda generalizing base with
  | nil => simp only [stored, encode_nil, addLoop, orderedInsert_nil, encode_cons, ticksLeft]
  | cons request rest ih =>
    have cumTicks : long base - long now + (long request.deadline - long base) =
        long request.deadline - long now := by abel
    have walked := ih request.deadline fun other among => near other (mem_cons_of_mem _ among)
    have read := toInt_gap (near request (by simp))
    simp only [stored, encode_cons, addLoop, cumTicks, orderedInsert_cons, read] at walked ⊢
    by_cases here : Later new request
    · have passed : request.deadline - now > ticks.toInt := by
        omega
      have behind : long request.deadline - long base - (long new.deadline - long base) =
          long request.deadline - long new.deadline := by abel
      rw [if_pos passed, if_pos here, ticksLeft, behind]
      rfl
    · have further : ¬ request.deadline - now > ticks.toInt := by
        omega
      rw [if_neg further, if_neg here, walked]
      rfl

variable {now} {agenda} in
theorem addToMe_stored (new : Request) {ticks : Long} (due : new.deadline = now + ticks.toInt)
    (near : ∀ request ∈ agenda, Near now request.deadline) :
    addToMe new.task ticks (stored now agenda) = stored now (agenda.orderedInsert Later new) := by
  have walked := addLoop_stored now due near
  rw [sub_self] at walked
  cases agenda with
  | nil => simpa [addToMe, stored, addLoop] using walked
  | cons request rest => exact walked

theorem unlink_stored (base : Int) (request : Request) (rest : List Request) :
    unlink (long request.deadline - long base) (stored request.deadline rest) = stored base rest := by
  cases rest with
  | nil => rfl
  | cons next rest =>
    simp only [stored, encode_cons, unlink]
    congr 2
    abel

theorem delLoop_stored (base : Int) (p : Nat) (agenda : List Request) :
    (delLoop p (stored base agenda)).2 = stored base (drop p agenda) := by
  induction agenda generalizing base with
  | nil => rfl
  | cons request rest ih =>
    have unlinked := unlink_stored base request rest
    have walked := ih request.deadline
    simp only [stored, drop, encode_cons, delLoop, eraseP_cons] at unlinked walked ⊢
    by_cases here : request.task = p
    · simp [here, unlinked]
    · simp [here, Ne.symm here, walked]

theorem delFromMe_stored (base : Int) (p : Nat) (agenda : List Request)
    (present : ∀ request ∈ agenda, request.task ≠ 0) :
    (delFromMe p (stored base agenda)).2 = stored base (drop p agenda) := by
  by_cases zero : p = 0
  · have kept : drop p agenda = agenda := by
      apply eraseP_of_forall_not
      intro request among
      simp [zero, present request among]
    rw [delFromMe, if_pos zero, kept]
  · rw [delFromMe, if_neg zero, delLoop_stored]

variable {now} {agenda} in
theorem checkWaitqueue_stored (present : ∀ request ∈ agenda, request.task ≠ 0)
    (near : ∀ request ∈ agenda, Near (now + 1) request.deadline) : checkWaitqueue (stored now agenda) =
      ((expire (now + 1) agenda).1, stored (now + 1) (expire (now + 1) agenda).2) := by
  cases agenda with
  | nil => rfl
  | cons first rest =>
    have ticked : long first.deadline - long now - 1 = long first.deadline - long (now + 1) := by
      rw [long_add, sub_sub]
      rfl
    have left := delFromMe_stored (now + 1) first.task (first :: rest) present
    have read := toInt_gap (near first (by simp))
    simp only [stored, drop, encode_cons, eraseP_cons, decide_true, cond_true, checkWaitqueue,
      ticked, expire, read] at left ⊢
    by_cases due : first.deadline ≤ now + 1
    · have reached : first.deadline - (now + 1) ≤ 0 := by omega
      rw [if_pos reached, if_pos due, left]
    · have ahead : ¬ first.deadline - (now + 1) ≤ 0 := by omega
      rw [if_neg ahead, if_neg due]
      rfl

end JinyKernel.WaitQueue
