import Mathlib.Tactic.Ring

-- `unsigned long` values are naturals below `2 ^ 64`.

namespace JinyKernel

def pageSize : Nat := 4096
def memNetbufSize : Nat := 16384
def kaddrspaceStart : Nat := 0xffffc90000000000
def kernelCodeStart : Nat := 0xffffffff80000000
def kaddrspaceEnd : Nat := 0xffffffffc0000000

def wrap (value : Nat) : Nat := value % 2 ^ 64
def wrapSub (left right : Nat) : Nat := (left + 2 ^ 64 - right) % 2 ^ 64

def toInt (value : Int) : Int := Int.bmod value (2 ^ 32)

def toUlong (value : Int) : Nat := (value % 2 ^ 64).toNat

def pageMask (addr : Nat) : Nat := addr / pageSize * pageSize
def pageAlign (addr : Nat) : Nat := pageMask (wrap (addr + pageSize - 1))

def va (phys : Nat) : Nat := wrap (phys + kaddrspaceStart)

def pa (addr : Nat) : Nat :=
  if kernelCodeStart < addr then wrapSub addr kernelCodeStart else wrapSub addr kaddrspaceStart

def mapNr (addr : Nat) : Nat := pa addr / pageSize

def address (frame : Nat) : Nat := wrap (kaddrspaceStart + frame * pageSize)

def frameLimit : Nat := 2 ^ 31

variable {frame right : Nat} {value : Int}

theorem address_eq (below : frame < frameLimit) : address frame = kaddrspaceStart + frame * pageSize := by
  simp only [frameLimit] at below
  simp only [address, wrap, kaddrspaceStart, pageSize]
  omega

theorem mapNr_direct {addr : Nat} (low : kaddrspaceStart ≤ addr)
    (high : addr < kaddrspaceStart + frameLimit * pageSize) : mapNr addr = (addr - kaddrspaceStart) / pageSize := by
  have belowImage : ¬ kernelCodeStart < addr := by
    simp only [kaddrspaceStart, kernelCodeStart, pageSize, frameLimit] at *
    omega
  rw [mapNr, pa, if_neg belowImage]
  simp only [wrapSub, kaddrspaceStart, pageSize, frameLimit] at *
  omega

theorem mapNr_address (below : frame < frameLimit) : mapNr (address frame) = frame := by
  rw [address_eq below]
  simp only [frameLimit] at below
  rw [mapNr_direct] <;> simp only [kaddrspaceStart, frameLimit, pageSize] <;> omega

theorem toInt_eq (low : -2 ^ 31 ≤ value) (high : value < 2 ^ 31) : toInt value = value := by
  rw [toInt]
  apply Int.bmod_eq_of_le <;> omega

theorem toInt_range (value : Int) : -2 ^ 31 ≤ toInt value ∧ toInt value < 2 ^ 31 := by
  have low := Int.le_bmod (x := value) (m := 2 ^ 32) (by decide)
  have high := Int.bmod_lt (x := value) (m := 2 ^ 32) (by decide)
  rw [toInt]
  omega

theorem toInt_congr {left right : Int} (same : left % 2 ^ 32 = right % 2 ^ 32) : toInt left = toInt right := by
  rw [toInt, toInt, ← Int.emod_bmod, ← Int.emod_bmod (x := right)]
  exact congrArg (Int.bmod · _) same

theorem toInt_emod (value : Int) : toInt value % 2 ^ 32 = value % 2 ^ 32 := Int.bmod_emod

theorem wrapSub_eq {left : Nat} (less : right ≤ left) (small : left < 2 ^ 64) :
    wrapSub left right = left - right := by
  have whole : left + 2 ^ 64 - right = left - right + 2 ^ 64 := by omega
  rw [wrapSub, whole, Nat.add_mod_right, Nat.mod_eq_of_lt (by omega)]

theorem wrapSub_emod (left : Nat) (small : right < 2 ^ 64) :
    ((wrapSub left right : Nat) : Int) % 2 ^ 32 = ((left : Int) - right) % 2 ^ 32 := by
  have whole : ((left + 2 ^ 64 - right : Nat) : Int) = (left - right) + 2 ^ 32 * 2 ^ 32 := by omega
  rw [wrapSub, Int.natCast_emod, Nat.cast_pow, Nat.cast_ofNat, Int.emod_emod_of_dvd _ (by decide), whole,
    Int.add_mul_emod_self_left]

theorem toUlong_eq (low : 0 ≤ value) (high : value < 2 ^ 64) : toUlong value = value.toNat := by
  rw [toUlong, Int.emod_eq_of_lt low high]

theorem toInt_nat {value : Nat} (small : value < 2 ^ 31) : toInt value = value := toInt_eq (by omega) (by omega)

theorem toUlong_nat {value : Nat} (small : value < 2 ^ 64) : toUlong value = value := by
  rw [toUlong_eq (by omega) (by omega), Int.toNat_natCast]

theorem toInt_toUlong (low : -2 ^ 31 ≤ value) (high : value < 2 ^ 31) : toInt (toUlong value) = value := by
  rw [← toInt_eq low high]
  apply toInt_congr
  rw [toInt_eq low high, toUlong, Int.toNat_of_nonneg (Int.emod_nonneg _ (by decide)),
    Int.emod_emod_of_dvd _ (by decide)]

theorem toUlong_small (low : -2 ^ 31 ≤ value) (high : value < 2 ^ 31) (small : toUlong value < 2 ^ 31) :
    0 ≤ value ∧ toUlong value = value.toNat := by
  by_cases negative : value < 0
  · have shifted : value % 2 ^ 64 = value + 2 ^ 64 := by
      rw [← Int.add_emod_right, Int.emod_eq_of_lt] <;> omega
    rw [toUlong, shifted] at small
    omega
  · exact ⟨by omega, toUlong_eq (by omega) (by omega)⟩

end JinyKernel
