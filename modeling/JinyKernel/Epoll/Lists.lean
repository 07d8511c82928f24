import JinyKernel.Shared.Census
import JinyKernel.Epoll.Model

namespace JinyKernel.Epoll

open Census Function List

def Filled (list : Nat -> Option Nat) : Prop := ∀ j k, j < k -> k < maxEfdsPerFd -> list j = none -> list k = none

def occurrences (list : Nat -> Option Nat) (epollp : Nat) : Nat := census maxEfdsPerFd list epollp

variable {list : Nat -> Option Nat} {epollp k : Nat}

theorem lastUsed_spec (list : Nat -> Option Nat) {j : Nat} (n : Nat) (last : (lastUsed list k n).getD k = j) :
    k ≤ j ∧ (k < j -> j < n ∧ list j ≠ none) ∧ ∀ later, j < later -> later < n -> list later = none := by
  induction n with
  | zero => exact ⟨last.le, fun above => absurd last above.ne, fun later _ below => by omega⟩
  | succ n ih =>
    rw [lastUsed] at last
    split at last
    next here =>
      obtain rfl : n = j := last
      exact ⟨here.1.le, fun _ => ⟨Nat.lt_succ_self _, here.2⟩, fun later above below => by omega⟩
    next skipped =>
      obtain ⟨low, used, rest⟩ := ih last
      refine ⟨low, fun above => ⟨(used above).1.trans (Nat.lt_succ_self _), (used above).2⟩, fun later above below => ?_⟩
      by_cases top : later = n
      · subst top
        by_contra other
        exact skipped ⟨by omega, other⟩
      · exact rest later above (by omega)

-- the entry that takes the place of `k` is the last one in use
theorem dropEntry_spec (list : Nat -> Option Nat) (within : k < maxEfdsPerFd) :
    ∃ j, k ≤ j ∧ j < maxEfdsPerFd ∧ (k < j -> list j ≠ none) ∧
      (∀ later, j < later -> later < maxEfdsPerFd -> list later = none) ∧
      dropEntry list k = update (update list k (list j)) j none := by
  have beyond : ∀ later, k < later -> update list k none later = list later :=
    fun later above => update_of_ne (by omega) ..
  obtain ⟨low, used, rest⟩ := lastUsed_spec (k := k) (update list k none) maxEfdsPerFd rfl
  refine ⟨_, low, ?_, fun above => ?_, fun later above below => ?_, ?_⟩
  · rcases low.eq_or_lt with same | above
    · rwa [← same]
    · exact (used above).1
  · rw [← beyond _ above]
    exact (used above).2
  · rw [← beyond later (by omega)]
    exact rest later above below
  cases found : lastUsed (update list k none) k maxEfdsPerFd with
  | some j =>
    by_cases same : j = k
    · simp [dropEntry, found, same]
    · simp [dropEntry, found, same]
  | none => simp [dropEntry, found]

theorem dropEntry_occurrences (list : Nat -> Option Nat) (within : k < maxEfdsPerFd) (other : Nat) :
    occurrences (dropEntry list k) other + (if list k = some other then 1 else 0) = occurrences list other := by
  obtain ⟨j, _, high, _, _, dropped⟩ := dropEntry_spec list within
  have never : ¬ (none : Option Nat) = some other := by simp
  have same : update list k (list j) j = list j := by
    by_cases here : j = k
    · rw [here, update_self]
    · exact update_of_ne here ..
  have moved := census_update list other within (list j)
  have cleared := census_update (update list k (list j)) other high none
  rw [same, if_neg never] at cleared
  rw [dropped, occurrences, occurrences]
  omega

theorem dropEntry_filled (filled : Filled list) (within : k < maxEfdsPerFd) (used : list k ≠ none) :
    Filled (dropEntry list k) := by
  intro a b order high empty
  obtain ⟨j, low, _, usedJ, rest, dropped⟩ := dropEntry_spec list within
  rw [dropped] at empty ⊢
  by_cases last : b = j
  · rw [last, update_self]
  rw [update_of_ne last]
  by_cases past : j < b
  · rw [update_of_ne (by omega)]
    exact rest b past high
  rw [update_of_ne (by omega)] at empty
  by_cases place : a = k
  · rw [place, update_self] at empty
    exact absurd empty (usedJ (by omega))
  rw [update_of_ne place] at empty
  by_cases here : b = k
  · exact absurd (filled a k (by omega) within empty) used
  · rw [update_of_ne here]
    exact filled a b order high empty

theorem dropEntry_old {i : Nat} (within : k < maxEfdsPerFd) (inside : i < maxEfdsPerFd)
    (used : dropEntry list k i ≠ none) : ∃ j < maxEfdsPerFd, dropEntry list k i = list j := by
  obtain ⟨j, _, high, _, _, dropped⟩ := dropEntry_spec list within
  rw [dropped] at used ⊢
  by_cases last : i = j
  · exact absurd (by rw [last, update_self]) used
  rw [update_of_ne last]
  by_cases here : i = k
  · rw [here, update_self]
    exact ⟨j, high, rfl⟩
  · rw [update_of_ne here]
    exact ⟨i, inside, rfl⟩

theorem fold_absent {ks : List Nat} (within : ∀ k ∈ ks, k < maxEfdsPerFd) (absent : occurrences list epollp = 0) :
    ks.foldl (fun list k => if list k = some epollp then dropEntry list k else list) list = list := by
  induction ks with
  | nil => rfl
  | cons k rest ih =>
    have other : list k ≠ some epollp := by
      intro here
      exact absurd absent (Nat.ne_of_gt (census_pos (within k (by simp)) here))
    rw [foldl_cons, if_neg other]
    exact ih fun later among => within later (by simp [among])

theorem fold_once {ks : List Nat} (within : ∀ k ∈ ks, k < maxEfdsPerFd) (once : occurrences list epollp = 1)
    (among : k ∈ ks) (here : list k = some epollp) :
    ks.foldl (fun list k => if list k = some epollp then dropEntry list k else list) list = dropEntry list k := by
  induction ks with
  | nil => cases among
  | cons first rest ih =>
    have inside : ∀ k ∈ rest, k < maxEfdsPerFd := fun later member => within later (by simp [member])
    rw [foldl_cons]
    by_cases found : list first = some epollp
    · have same : first = k := by
        by_contra apart
        have two : 2 ≤ occurrences list epollp := census_two (within first (by simp)) (within k among) apart found here
        omega
      subst same
      have dropped := dropEntry_occurrences list (within first (by simp)) epollp
      rw [if_pos here, once] at dropped
      rw [if_pos found]
      exact fold_absent inside (by omega)
    · rw [if_neg found]
      refine ih inside ((mem_cons.1 among).resolve_left ?_)
      rintro rfl
      exact found here

theorem dropEpoll_spec (filled : Filled list) (once : occurrences list epollp = 1) :
    (∀ other, occurrences (dropEpoll list epollp) other + (if epollp = other then 1 else 0) = occurrences list other) ∧
      Filled (dropEpoll list epollp) ∧
      ∀ i < maxEfdsPerFd, dropEpoll list epollp i ≠ none -> ∃ j < maxEfdsPerFd, dropEpoll list epollp i = list j := by
  obtain ⟨k, within, here⟩ : ∃ k < maxEfdsPerFd, list k = some epollp := by
    by_contra nowhere
    push Not at nowhere
    have zero : occurrences list epollp = 0 := census_eq_zero nowhere
    omega
  have dropped : dropEpoll list epollp = dropEntry list k :=
    fold_once (fun _ => mem_range.1) once (mem_range.2 within) here
  have used : list k ≠ none := by simp [here]
  rw [dropped]
  refine ⟨fun other => ?_, dropEntry_filled filled within used, fun i => dropEntry_old within⟩
  have counts := dropEntry_occurrences list within other
  rw [here] at counts
  simpa only [Option.some.injEq] using counts

theorem freeEntry_some (found : freeEntry list = some k) :
    k < maxEfdsPerFd ∧ list k = none ∧ ∀ j < k, list j ≠ none := by
  rw [freeEntry, find?_range_eq_some] at found
  obtain ⟨here, within, before⟩ := found
  exact ⟨mem_range.1 within, of_decide_eq_true here, fun j below empty => by simpa [empty] using before j below⟩

theorem freeEntry_filled (filled : Filled list) (found : freeEntry list = some k) :
    Filled (update list k (some epollp)) := by
  obtain ⟨_, empty, before⟩ := freeEntry_some found
  intro a b order high absent
  have apart : a ≠ k := by
    rintro rfl
    rw [update_self] at absent
    cases absent
  rw [update_of_ne apart] at absent
  have past : k < a := by
    by_contra low
    exact before a (by omega) absent
  rw [update_of_ne (by omega)]
  exact filled a b order high absent

theorem freeEntry_occurrences (found : freeEntry list = some k) (other : Nat) :
    occurrences (update list k (some epollp)) other =
      occurrences list other + if epollp = other then 1 else 0 := by
  obtain ⟨within, empty, _⟩ := freeEntry_some found
  have counts := census_update list other within (some epollp)
  rw [empty, if_neg (by simp), Nat.add_zero] at counts
  simp only [Option.some.injEq] at counts
  exact counts

end JinyKernel.Epoll
