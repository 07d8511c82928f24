import JinyKernel.Shared.Run
import Mathlib.Data.List.Infix

-- util.c: a pointer is the list of the bytes from it on; reading behind the last one gives `none`.

namespace JinyKernel.Util

open List

section

-- The loop looks for the digit `0` instead of the end.
def matchAt : List UInt8 -> List UInt8 -> Option Bool
  | _, [] => none
  | [], b :: _ => if b = 48 then some false else none
  | a :: s1, b :: s2 =>
    if b = 48 then some false
    else if a = 0 ∨ a ≠ b then some (b = 0)
    else matchAt s1 s2

def utStrstr : List UInt8 -> List UInt8 -> Option (Option Nat)
  | [], _ => none
  | a :: s1, s2 =>
    if a = 0 then some none
    else do
      let b ← s2.head?
      let found ← (if a = b then matchAt (a :: s1) s2 else some false)
      if found then some (some 0) else (utStrstr s1 s2).map (Option.map (· + 1))

variable {text needle : List UInt8} (solid : 0 ∉ text) (whole : 0 ∉ needle)

include solid whole

theorem matchAt_eq : matchAt (text ++ [0]) (needle ++ [0]) = some (decide (48 ∉ needle ∧ needle <+: text)) := by
  induction needle generalizing text with
  | nil => cases text with
    | nil => rfl
    | cons c text => simp [matchAt, ne_of_mem_of_not_mem mem_cons_self solid]
  | cons d needle ih =>
    rw [mem_cons, not_or] at whole
    cases text with
    | nil => by_cases digit : d = 48 <;> simp [matchAt, digit, Ne.symm whole.1]
    | cons c text =>
      rw [mem_cons, not_or] at solid
      by_cases digit : d = 48
      · simp [matchAt, digit]
      by_cases same : c = d
      · subst same
        simp [matchAt, ih solid.2 whole.2, digit, Ne.symm solid.1, Ne.symm digit]
      · simp [matchAt, digit, same, Ne.symm same, Ne.symm whole.1]

theorem utStrstr_eq (named : needle ≠ []) : utStrstr (text ++ [0]) (needle ++ [0]) =
    some (if 48 ∈ needle then none else text.tails.findIdx? needle.isPrefixOf) := by
  obtain ⟨d, rest, rfl⟩ := exists_cons_of_ne_nil named
  induction text with
  | nil => simp [utStrstr]
  | cons c text ih =>
    have start := matchAt_eq solid whole
    rw [mem_cons, not_or] at solid
    rw [cons_append, utStrstr, if_neg (Ne.symm solid.1), ih solid.2]
    -- A start needs the same first byte.
    have first : (if c = d then matchAt (c :: text ++ [0]) (d :: rest ++ [0]) else some false) =
        some (decide (48 ∉ d :: rest ∧ d :: rest <+: c :: text)) := by
      split_ifs with same
      · exact start
      · simp [Ne.symm same]
    rw [cons_append, head?_cons, Run.some_bind, ← cons_append, ← cons_append, first, Run.some_bind]
    by_cases digit : 48 ∈ d :: rest
    · simp [digit]
    · by_cases starts : d :: rest <+: c :: text <;> simp [digit, starts, findIdx?_cons]

theorem strstr_leftmost_iff (named : needle ≠ []) : ∃ found, utStrstr (text ++ [0]) (needle ++ [0]) = some found ∧
    (found = text.tails.findIdx? needle.isPrefixOf ↔ 48 ∉ needle ∨ ¬ needle <:+: text) := by
  refine ⟨_, utStrstr_eq solid whole named, ?_⟩
  by_cases digit : 48 ∈ needle
  · rw [if_pos digit, eq_comm, findIdx?_eq_none_iff]
    simp only [digit, infix_iff_prefix_suffix, mem_tails, Bool.eq_false_iff, ne_eq, isPrefixOf_iff_prefix, not_true,
      false_or, not_exists, not_and]
    exact forall_congr' fun _ => imp_not_comm
  · simp [digit]

omit solid whole

theorem strstr_leftmost_second : ∃ found, utStrstr ([97, 98] ++ [0]) ([98] ++ [0]) = some found ∧ found = some 1 := by
  obtain ⟨found, ran, leftmost⟩ := @strstr_leftmost_iff [97, 98] [98] (by decide) (by decide) (by decide)
  exact ⟨found, ran, leftmost.2 (by decide)⟩

theorem strstr_misses_digit : utStrstr [97, 48, 0] [97, 48, 0] = some none ∧ [97, 48] <:+: [97, 48] := by decide

end

-- The bytes stored: the first one is moved before the end is looked for.
def copyLoop : Option Nat -> List UInt8 -> Option (List UInt8)
  | n, a :: b :: src =>
    if b ≠ 0 ∧ ∀ left ∈ n, 1 < left then (copyLoop (n.map (· - 1)) (b :: src)).map (a :: ·) else some [a, 0]
  | _, _ => none

def utStrcpy (src : List UInt8) : Option (List UInt8) := copyLoop none src

def utStrncpy (src : List UInt8) (n : Nat) : Option (List UInt8) := copyLoop (some n) src

def utStrcat (dest src : List UInt8) : Option (Nat × List UInt8) := do
  let start ← dest.findIdx? (· = 0)
  let stored ← copyLoop none src
  some (start, stored)

def ncmpLoop : Nat -> List UInt8 -> List UInt8 -> Option (Bool × UInt8 × UInt8)
  | n, a :: s1, b :: s2 =>
    if a = 0 ∨ b = 0 ∨ n = 0 then some (false, a, b)
    else if a ≠ b then some (true, a, b)
    else ncmpLoop (n - 1) s1 s2
  | _, _, _ => none

def utStrncmp (s1 s2 : List UInt8) (n : Nat) : Option Nat := do
  let (failed, a, b) ← ncmpLoop n s1 s2
  some (if failed ∨ ¬ (a = 0 ↔ b = 0) then if a = 0 then 2 else 1 else 0)

section

variable {next : List UInt8} (solid : 0 ∉ next) (a : UInt8) (behind : List UInt8)

include solid

theorem copyLoop_none : copyLoop none (a :: (next ++ 0 :: behind)) = some (a :: (next ++ [0])) := by
  induction next generalizing a with
  | nil => simp [copyLoop]
  | cons b next ih =>
    rw [mem_cons, not_or] at solid
    simp [copyLoop, Ne.symm solid.1, ih solid.2]

theorem copyLoop_some (n : Nat) :
    copyLoop (some (n + 1)) (a :: (next ++ 0 :: behind)) = some (a :: (next.take n ++ [0])) := by
  induction next generalizing a n with
  | nil => simp [copyLoop]
  | cons b next ih =>
    rw [mem_cons, not_or] at solid
    cases n with
    | zero => simp [copyLoop]
    | succ n => simp [copyLoop, Ne.symm solid.1, ih solid.2]

end

theorem copyLoop_ne_nil (n : Option Nat) (src : List UInt8) : copyLoop n src ≠ some [] := by
  fun_cases copyLoop n src <;> simp

theorem utStrncmp_eq_zero {s t : List UInt8} (solid : 0 ∉ s) (whole : 0 ∉ t) (x y : List UInt8) (n : Nat) :
    utStrncmp (s ++ 0 :: x) (t ++ 0 :: y) n = some 0 ↔ s.take n = t.take n ∧ (s.length = n ↔ t.length = n) := by
  rw [utStrncmp]
  induction n generalizing s t with
  | zero =>
    cases s <;> cases t <;> simp_all [ncmpLoop, Ne.symm]
  | succ n ih =>
    cases s with
    | nil => cases t <;> simp_all [ncmpLoop, Ne.symm]
    | cons a s => cases t with
      | nil => simp_all [ncmpLoop, Ne.symm]
      | cons b t =>
        rw [mem_cons, not_or] at solid whole
        by_cases same : a = b
        · subst same
          simpa [ncmpLoop, Ne.symm solid.1] using ih solid.2 whole.2
        · simp [ncmpLoop, Ne.symm solid.1, Ne.symm whole.1, same]

theorem strings_right_iff {text old s t : List UInt8} (solid : 0 ∉ text) (before : 0 ∉ old) (left : 0 ∉ s) (right : 0 ∉ t)
    (behind room x y : List UInt8) {n : Nat} (positive : 1 ≤ n) :
    utStrcpy (text ++ 0 :: behind) = some (text ++ [0]) ∧
        utStrcat (old ++ 0 :: room) (text ++ 0 :: behind) = some (old.length, text ++ [0]) ∧
        (∃ stored, utStrncpy (text ++ 0 :: behind) n = some stored ∧ stored.length ≤ n) ∧
        (utStrncmp (s ++ 0 :: x) (t ++ 0 :: y) n = some 0 ↔ s.take n = t.take n) ↔
      text ≠ [] ∧ text.length < n ∧ (s.take n = t.take n -> (s.length = n ↔ t.length = n)) := by
  have ends : (old ++ 0 :: room).findIdx? (· = 0) = some old.length := by
    rw [findIdx?_append, findIdx?_eq_none_iff.2 fun c among => by simpa using ne_of_mem_of_not_mem among before]
    simp [findIdx?_cons]
  rw [utStrncmp_eq_zero left right, and_iff_left_iff_imp, utStrcat, ends, Run.some_bind, utStrcpy, utStrncpy]
  cases text with
  | nil =>
    refine iff_of_false (fun right => ?_) (fun named => named.1 rfl)
    cases behind with
    | nil => exact absurd right.1 (by simp [copyLoop])
    | cons b behind =>
      have stored := right.1
      by_cases more : b = 0 <;> simp [copyLoop, more, copyLoop_ne_nil] at stored
  | cons a next =>
    obtain ⟨n, rfl⟩ := Nat.exists_eq_add_of_le' positive
    rw [mem_cons, not_or] at solid
    have short : min n next.length + 1 ≤ n ↔ next.length < n := by omega
    simp [copyLoop_none solid.2, copyLoop_some solid.2, Run.some_bind, short]

theorem strings_right_ab : utStrcpy ([97, 98] ++ 0 :: [7]) = some ([97, 98] ++ [0]) ∧
    ∃ stored, utStrncpy ([97, 98] ++ 0 :: [7]) 3 = some stored ∧ stored.length ≤ 3 := by
  have right := (@strings_right_iff [97, 98] [] [97] [98] (by decide) (by decide) (by decide) (by decide)
    [7] [] [] [] 3 (by decide)).2 ⟨by decide, by decide, by decide⟩
  exact ⟨right.1, right.2.2.1⟩

theorem strings_wrong : utStrcpy [0, 7, 0] = some [0, 7, 0] ∧ utStrncpy [97, 98, 0] 2 = some [97, 98, 0] ∧
    utStrncmp [97, 0] [97, 98, 0] 1 = some 2 := by
  decide

end JinyKernel.Util
