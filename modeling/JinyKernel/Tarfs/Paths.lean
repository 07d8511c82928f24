import JinyKernel.Tarfs.Model

namespace JinyKernel.Tarfs

open List

def collapse : Bytes -> Bytes
  | [] => []
  | c :: rest => if c = slash ∧ rest.head? = some slash then collapse rest else c :: collapse rest

-- Every code is above its position, and slashes come in pairs at most; only the rest of a run that ends the
-- path may be cut.
def Kept : Nat -> Bytes -> Prop
  | _, [] => True
  | i, [c] => i < c.toNat
  | i, c :: d :: rest => i < c.toNat ∧
      if c = slash ∧ d = slash then
        if rest.head? = some slash then slash.toNat ≤ i + 2 ∧ ∀ other ∈ rest, other = slash else Kept (i + 2) rest
      else Kept (i + 1) (d :: rest)

section

variable {rest : Bytes}

theorem head_collapse (path : Bytes) : (collapse path).head? = path.head? := by
  induction path with
  | nil => rfl
  | cons c rest ih =>
    rw [collapse]
    split_ifs with double
    · rw [ih, double.1, double.2, head?_cons]
    · rfl

theorem collapse_single {c : UInt8} (single : ¬ (c = slash ∧ rest.head? = some slash)) :
    collapse (c :: rest) = c :: collapse rest := if_neg single

theorem collapse_double : collapse (slash :: slash :: rest) = collapse (slash :: rest) := if_pos ⟨rfl, rfl⟩

theorem collapse_collapse (path : Bytes) : collapse (collapse path) = collapse path := by
  induction path with
  | nil => rfl
  | cons c rest ih =>
    rw [collapse]
    split_ifs with double
    · exact ih
    · rw [collapse_single (by rwa [head_collapse]), ih]

theorem collapse_not_double (path rest : Bytes) : collapse path ≠ slash :: slash :: rest := by
  induction path with
  | nil => exact nofun
  | cons c path ih =>
    rw [collapse]
    split_ifs with double
    · exact ih
    · intro same
      obtain ⟨rfl, tail⟩ := cons_eq_cons.1 same
      exact double ⟨rfl, by rw [← head_collapse, tail, head?_cons]⟩

theorem collapse_run : collapse (slash :: rest) = [slash] ↔ ∀ other ∈ rest, other = slash := by
  induction rest with
  | nil => simp [collapse]
  | cons c rest ih =>
    rw [forall_mem_cons]
    by_cases more : c = slash
    · rw [more, collapse_double, ih, and_iff_right rfl]
    · rw [collapse_single (by simp [more])]
      have kept : collapse (c :: rest) ≠ [] := fun empty => by simpa [empty] using head_collapse (c :: rest)
      simp [kept, more]

end

section

variable {path rest : Bytes} {c : UInt8} {i fuel : Nat}

theorem getD_of_drop (place : path.drop i = rest) : path.getD i 0 = rest.head?.getD 0 := by
  rw [← place, head?_drop, getD_eq_getElem?_getD]

theorem regularise_end (place : path.drop i = []) : regularise path fuel i = [] := by
  cases fuel with
  | zero => rfl
  | succ fuel => simp only [regularise, getD_of_drop place]; simp

theorem regularise_cons (place : path.drop i = c :: rest) (short : path.length < namsiz) :
    regularise path (fuel + 1) i = if i < c.toNat then
      if c = slash ∧ rest.head? = some slash then slash :: regularise path fuel (i + 2)
      else c :: regularise path fuel (i + 1) else [] := by
  have behind : path.drop (i + 1) = rest := by rw [← drop_drop, place, drop_one, tail_cons]
  have low : i < namsiz := by
    have length := congrArg List.length place
    rw [length_drop, length_cons] at length
    omega
  have same : rest.head?.getD 0 = slash ↔ rest.head? = some slash := by
    cases rest <;> simp [slash]
  simp only [regularise, getD_of_drop place, getD_of_drop behind, head?_cons, Option.getD_some, low, and_true, same]

theorem regularise_collapse (short : path.length < namsiz) (place : path.drop i = rest) (room : rest.length < fuel) :
    regularise path fuel i = collapse rest ↔ Kept i rest := by
  induction fuel generalizing i rest with
  | zero => exact absurd room (Nat.not_lt_zero _)
  | succ fuel ih =>
    have behind (n : Nat) : path.drop (i + n) = rest.drop n := by rw [← drop_drop, place]
    have kept {c : UInt8} {rest : Bytes} : [] ≠ collapse (c :: rest) :=
      fun empty => by simpa [← empty] using head_collapse (c :: rest)
    match rest with
    | [] => simp [regularise_end place, collapse, Kept]
    | [c] =>
      rw [regularise_cons place short, regularise_end (behind 1), Kept]
      split_ifs with code <;> simp_all [collapse]
    | c :: d :: rest =>
      rw [length_cons, length_cons] at room
      simp only [regularise_cons place short, Kept, head?_cons, Option.some.injEq]
      by_cases code : i < c.toNat
      · by_cases pair : c = slash ∧ d = slash
        · obtain ⟨rfl, rfl⟩ := pair
          simp only [code, and_self, if_true, true_and, collapse_double]
          by_cases third : rest.head? = Option.some slash
          · -- The loop writes the third slash too, unless it stops in front of it.
            obtain ⟨rest, rfl⟩ := head?_eq_some_iff.1 third
            obtain ⟨fuel, rfl⟩ := Nat.exists_eq_add_of_lt (Nat.zero_lt_of_lt (Nat.lt_of_succ_lt_succ room))
            rw [if_pos third, collapse_double, Nat.zero_add, regularise_cons (behind 2) short]
            by_cases cut : slash.toNat ≤ i + 2
            · rw [if_neg (Nat.not_lt.2 cut), forall_mem_cons, eq_comm, collapse_run]
              simp [cut]
            have more : ¬ (slash.toNat ≤ i + 2 ∧ ∀ other ∈ slash :: rest, other = slash) := fun both => cut both.1
            rw [if_pos (Nat.not_le.1 cut)]
            split_ifs
            · exact iff_of_false (collapse_not_double _ _).symm more
            · exact iff_of_false (collapse_not_double _ _).symm more
          · rw [if_neg third, collapse_single (by simp [third]), cons_inj_right]
            exact ih (behind 2) (by omega)
        · rw [if_pos code, if_neg pair, if_neg pair, collapse_single (by simpa using pair), cons_inj_right,
            and_iff_right code]
          exact ih (behind 1) (by rw [length_cons]; omega)
      · simp [code, kept]

theorem Kept.cons (code : i < c.toNat) (single : ¬ (c = slash ∧ rest.head? = some slash)) (kept : Kept (i + 1) rest) :
    Kept i (c :: rest) := by
  cases rest with
  | nil => exact code
  | cons d rest =>
    rw [head?_cons, Option.some.injEq] at single
    exact ⟨code, by rwa [if_neg single]⟩

theorem Kept.collapsed {j : Nat} (kept : Kept i path) (earlier : j ≤ i) : Kept j (collapse path) := by
  induction i, path using Kept.induct generalizing j with
  | case1 => trivial
  | case2 i c =>
    rw [collapse_single (by simp)]
    exact Nat.lt_of_le_of_lt earlier kept
  | case3 i c d rest skipped ih =>
    obtain ⟨code, kept⟩ := kept
    by_cases pair : c = slash ∧ d = slash
    · obtain ⟨rfl, rfl⟩ := pair
      rw [if_pos ⟨rfl, rfl⟩] at kept
      rw [collapse_double]
      split_ifs at kept with third
      · rw [collapse_run.2 kept.2]
        exact Nat.lt_of_le_of_lt earlier code
      · rw [collapse_single (by simp [third])]
        exact .cons (by omega) (by simp [head_collapse, third]) (skipped kept (by omega))
    · rw [if_neg pair] at kept
      rw [collapse_single (by simpa using pair)]
      exact .cons (by omega) (by simpa [head_collapse] using pair) (ih kept (by omega))

theorem length_regularise_le_left (path : Bytes) (fuel i : Nat) : (regularise path fuel i).length ≤ path.length - i := by
  induction fuel generalizing i with
  | zero => exact Nat.zero_le _
  | succ fuel ih =>
    have inside {k : Nat} (nonzero : path.getD k 0 ≠ 0) : k < path.length := by
      by_contra beyond
      rw [getD_eq_getElem?_getD, getElem?_eq_none (Nat.not_lt.1 beyond)] at nonzero
      exact nonzero rfl
    rw [regularise]
    split_ifs with above double
    · have second := inside (k := i + 1) (by rw [double.2]; decide)
      have rest := ih (i + 2)
      rw [length_cons]
      omega
    · have first := inside (k := i) fun zero => Nat.not_lt_zero i (by rw [zero] at above; exact above.1)
      have rest := ih (i + 1)
      rw [length_cons]
      omega
    · exact Nat.zero_le _

end

theorem regularised_iff (path : Bytes) (short : path.length < namsiz) :
    (regularise path namsiz 0 = collapse path ∧
      regularise (regularise path namsiz 0) namsiz 0 = regularise path namsiz 0 ↔ Kept 0 path) ∧
    (regularise path namsiz 0).length + 1 ≤ namsiz := by
  have length := length_regularise_le_left path namsiz 0
  have whole : regularise path namsiz 0 = collapse path ↔ Kept 0 path := regularise_collapse short rfl short
  refine ⟨⟨fun right => whole.1 right.1, fun kept => ?_⟩, by omega⟩
  have first := whole.2 kept
  refine ⟨first, ?_⟩
  rw [first] at length ⊢
  have again : regularise (collapse path) namsiz 0 = collapse (collapse path) ↔ Kept 0 (collapse path) :=
    regularise_collapse (by omega) rfl (by omega)
  exact (again.2 (kept.collapsed (Nat.le_refl 0))).trans (collapse_collapse path)

theorem regularised_pair : regularise [47, 97, 47, 47, 98] namsiz 0 = [47, 97, 47, 98] ∧
    (regularise [47, 97, 47, 98] namsiz 0 = [47, 97, 47, 98]) := by
  have kept : Kept 0 [47, 97, 47, 47, 98] := by simp [Kept, slash]
  exact ((regularised_iff [47, 97, 47, 47, 98] (by decide)).1.2 kept)

theorem three_slashes_left : regularise [47, 47, 47] namsiz 0 = [47, 47] ∧ collapse [47, 47, 47] = [47] ∧
    regularise [47, 47] namsiz 0 = [47] ∧
    regularise (replicate 47 120 ++ [47, 97]) namsiz 0 = replicate 47 120 ∧
    collapse (replicate 47 120 ++ [47, 97]) = replicate 47 120 ++ [47, 97] := by
  decide

end JinyKernel.Tarfs
