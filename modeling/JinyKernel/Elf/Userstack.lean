import JinyKernel.Machine
import JinyKernel.Shared.Memory
import JinyKernel.Shared.Run

-- fs/binfmt_elf.c: `setup_userstack` and the copy of its image, whose strings and pointers are left out.

namespace JinyKernel.Elf

open Memory Run Words

def userstackTop : Nat := 0x7fffdbaac000 + 0x100000

def maxUserspaceStackTemplen : Nat := 409600
def maxAuxVecEntries : Nat := 25
def maxListLen : Nat := pageSize / 8 - 1

def userstackAddr (kaddr : Nat) : Nat :=
  wrapSub (wrapSub (wrap (userstackTop + kaddr)) (kaddr / pageSize * pageSize)) pageSize

structure Vblock where
  vaddr : Nat
  aligned : pageSize ∣ vaddr
  below : vaddr + maxUserspaceStackTemplen < 2 ^ 64

structure Layout where
  p : Nat
  total : Nat

def Layout.push (layout : Layout) (len : Nat) : Layout := ⟨layout.p - len - 1, layout.total + 1⟩

def pushChecked (stack : Nat) (layout : Layout) (text : List UInt8) : Option Layout :=
  if layout.p - text.length - 1 > stack then some (layout.push text.length) else none

structure Userstack where
  stack : Nat
  stackLen : Nat
  argc : Nat
  argv : Nat
  aux : Nat

def setupUserstack (stack : Nat) (elfInterp : Option (List UInt8)) (argv env : List (List UInt8)) : Option Userstack := do
  let start : Layout := ⟨stack + maxUserspaceStackTemplen, 0⟩
  let start := elfInterp.elim start fun name => start.push name.length
  let args ← (argv.take maxListLen).foldlM (pushChecked stack) start
  let envs ← (env.take maxListLen).foldlM (pushChecked stack) { args with total := 0 }
  let p := envs.p / 8 * 8 - maxAuxVecEntries * 16
  let len := (1 + args.total + 1 + envs.total + 1) * 8
  if p - len - 1 > stack then
    some {
      stack
      stackLen := maxUserspaceStackTemplen - (p - len - stack)
      argc := args.total
      argv := userstackTop + p - (stack + maxUserspaceStackTemplen) - len
      aux := p }
  else none

def Userstack.tmpStackTop (image : Userstack) : Nat := image.stack + (maxUserspaceStackTemplen - image.stackLen)

structure Elfhdr where
  eEntry : Nat
  ePhoff : Nat
  ePhnum : Nat

def atPlatform : Nat := 15
def atRandom : Nat := 25
def auxLast : Nat := (maxAuxVecEntries - 2) * 2

variable (elf : Elfhdr)

def plainEntries (loadAddr : Nat) : List (Nat × Nat) :=
  [(16, 0xbfebfbff), (6, pageSize), (17, 100), (3, wrap (loadAddr + elf.ePhoff)), (4, 56), (5, elf.ePhnum),
    (7, 0), (8, 0),
    (9, elf.eEntry), (11, 0x1f4), (12, 0x1f4), (13, 0x1f4), (14, 0x1f4), (23, 0)]

def auxEntries (loadAddr aux : Nat) : List (Nat × Nat) :=
  plainEntries elf loadAddr ++
    [(atRandom, userstackAddr (aux + auxLast * 8)), (atPlatform, userstackAddr (aux + (auxLast + 2) * 8))]

def randomBytes : List UInt8 := bytesOf 8 0x1234567887654321 ++ bytesOf 8 0x1122334455667788

def platformBytes : List UInt8 := bytesOf 8 0x34365f363878

def entryBytes (entries : List (Nat × Nat)) : List UInt8 :=
  entries.flatMap fun entry => bytesOf 8 entry.1 ++ bytesOf 8 entry.2

def auxWrites (loadAddr aux : Nat) : List (Nat × List UInt8) :=
  [(aux, entryBytes (auxEntries elf loadAddr aux)), (aux + auxLast * 8, randomBytes),
    (aux + (auxLast + 2) * 8, platformBytes)]

def elfInitializeUserspaceStack (aux tmpStack stackLen loadAddr : Nat) (kernel user : Nat -> UInt8) :
    Option (Nat -> UInt8) :=
  if stackLen > 0 then
    let kernel := if aux ≠ 0 then storeAll kernel (auxWrites elf loadAddr aux) else kernel
    some (store user (userstackTop - stackLen) (window kernel tmpStack stackLen))
  else none

def Userstack.copied (image : Userstack) (kaddr : Nat) : Nat :=
  userstackTop - image.stackLen + (kaddr - image.tmpStackTop)

def stringBytes (texts : List (List UInt8)) : Nat := (texts.map fun text => text.length + 1).sum

def allStrings (elfInterp : Option (List UInt8)) (argv env : List (List UInt8)) : List (List UInt8) :=
  elfInterp.toList ++ argv.take maxListLen ++ env.take maxListLen

def Located (user : Nat -> UInt8) (value : Option Nat) (address : Nat) (bytes : List UInt8) : Prop :=
  value = some address ∧ window user address bytes.length = bytes

section

variable {stack : Nat} {elfInterp : Option (List UInt8)} {argv env texts : List (List UInt8)}

theorem pushes_p {layout out : Layout} (pushed : texts.foldlM (pushChecked stack) layout = some out) :
    out.p + stringBytes texts = layout.p := by
  induction texts generalizing layout with
  | nil =>
    cases pushed
    rfl
  | cons text rest ih =>
    obtain ⟨middle, first, later⟩ := bind_iff.1 pushed
    rw [pushChecked] at first
    split_ifs at first with room
    cases first
    have rest := ih later
    simp only [Layout.push, stringBytes, List.map_cons, List.sum_cons] at *
    omega

theorem setupUserstack_aux {image : Userstack} (accepted : setupUserstack stack elfInterp argv env = some image)
    (aligned : 8 ∣ stack) :
    image.aux + 400 + (stringBytes (allStrings elfInterp argv env) + 7) / 8 * 8 = stack + maxUserspaceStackTemplen ∧
      image.tmpStackTop < image.aux ∧ image.tmpStackTop + image.stackLen = stack + maxUserspaceStackTemplen ∧
      image.stackLen ≤ maxUserspaceStackTemplen := by
  obtain ⟨args, first, accepted⟩ := bind_iff.1 accepted
  obtain ⟨envs, second, accepted⟩ := bind_iff.1 accepted
  have argsP := pushes_p first
  have envsP := pushes_p second
  dsimp only at accepted envsP
  split_ifs at accepted with room
  cases accepted
  have start : envs.p + stringBytes (allStrings elfInterp argv env) = stack + maxUserspaceStackTemplen := by
    cases elfInterp <;> simp [Layout.push, allStrings, stringBytes] at argsP envsP ⊢ <;> omega
  simp only [Userstack.tmpStackTop, maxAuxVecEntries, maxUserspaceStackTemplen] at room start ⊢
  omega

end

theorem userstackAddr_eq {kaddr : Nat} (small : kaddr < 2 ^ 64) :
    userstackAddr kaddr = userstackTop - pageSize + kaddr % pageSize := by
  simp only [userstackAddr, wrapSub, wrap, userstackTop, pageSize]
  omega

section

variable {block : Vblock} {elfInterp : Option (List UInt8)} {argv env : List (List UInt8)} {image : Userstack}

-- `userstack_addr` is right on the last page of the image only.
theorem located_iff (user : Nat -> UInt8) (accepted : setupUserstack block.vaddr elfInterp argv env = some image)
    {kernel : Nat -> UInt8} {offset : Nat} {bytes : List UInt8} (inside : offset < 400)
    (fits : offset + bytes.length ≤ 400)
    (held : window kernel (image.aux + offset) bytes.length = bytes) :
    Located (store user (userstackTop - image.stackLen) (window kernel image.tmpStackTop image.stackLen))
        (some (userstackAddr (image.aux + offset))) (image.copied (image.aux + offset)) bytes ↔
      (stringBytes (allStrings elfInterp argv env) + 7) / 8 * 8 + 400 - offset ≤ pageSize := by
  have below := block.below
  obtain ⟨aux, low, top, short⟩ := setupUserstack_aux accepted (Nat.dvd_trans (by decide) block.aligned)
  have place : image.tmpStackTop + (image.aux + offset - image.tmpStackTop) = image.aux + offset := by omega
  have there : window (store user (userstackTop - image.stackLen) (window kernel image.tmpStackTop image.stackLen))
      (image.copied (image.aux + offset)) bytes.length = bytes := by
    rw [Userstack.copied, ← take_window (by omega : bytes.length ≤
      image.stackLen - (image.aux + offset - image.tmpStackTop)),
      ← drop_window, window_store (length_window ..), drop_window, place, take_window (by omega), held]
  rw [Located, and_iff_left there, Option.some.injEq, userstackAddr_eq (by omega), Userstack.copied]
  obtain ⟨page, aligned⟩ := block.aligned
  simp only [userstackTop, maxUserspaceStackTemplen, pageSize] at *
  generalize (stringBytes (allStrings elfInterp argv env) + 7) / 8 * 8 = size at *
  omega

theorem aux_pointers_iff (elf : Elfhdr) (loadAddr : Nat) (kernel user : Nat -> UInt8)
    (accepted : setupUserstack block.vaddr elfInterp argv env = some image) :
    ∃ user', elfInitializeUserspaceStack elf image.aux image.tmpStackTop image.stackLen loadAddr kernel user =
      some user' ∧
      (Located user' ((auxEntries elf loadAddr image.aux).lookup atRandom) (image.copied (image.aux + auxLast * 8))
        randomBytes ↔ stringBytes (allStrings elfInterp argv env) + 32 ≤ pageSize) ∧
      (Located user' ((auxEntries elf loadAddr image.aux).lookup atPlatform)
        (image.copied (image.aux + (auxLast + 2) * 8))
        platformBytes ↔ stringBytes (allStrings elfInterp argv env) + 16 ≤ pageSize) := by
  obtain ⟨aux, low, top, -⟩ := setupUserstack_aux accepted (Nat.dvd_trans (by decide) block.aligned)
  have present : image.aux ≠ 0 := by omega
  have random : window (storeAll kernel (auxWrites elf loadAddr image.aux)) (image.aux + auxLast * 8) randomBytes.length =
      randomBytes := by
    refine (window_store_apart (.inl ?_)).trans (window_store rfl)
    exact Nat.le_of_eq (Nat.add_assoc ..)
  have platform : window (storeAll kernel (auxWrites elf loadAddr image.aux)) (image.aux + (auxLast + 2) * 8)
      platformBytes.length = platformBytes := window_store rfl
  have randomIff := located_iff user accepted (by decide) (by decide) random
  have platformIff := located_iff user accepted (by decide) (by decide) platform
  refine ⟨_, by rw [elfInitializeUserspaceStack, if_pos (by omega), if_pos present], randomIff.trans ?_,
    platformIff.trans ?_⟩
  all_goals
    simp only [auxLast, maxAuxVecEntries, pageSize]
    omega

end

def firstBlock : Vblock := ⟨0xffffffffc8401000, by decide, by decide⟩

theorem aux_pointers_oneArgument : ∃ image user', setupUserstack firstBlock.vaddr none [[97]] [] = some image ∧
    Located user' ((auxEntries ⟨0, 0, 0⟩ 0 image.aux).lookup atRandom)
      (image.copied (image.aux + auxLast * 8)) randomBytes ∧
    Located user' ((auxEntries ⟨0, 0, 0⟩ 0 image.aux).lookup atPlatform) (image.copied (image.aux + (auxLast + 2) * 8))
      platformBytes := by
  have outcome : ((setupUserstack firstBlock.vaddr none [[97]] []).any fun _ => True) = true := by decide +kernel
  obtain ⟨image, accepted, -⟩ := holds_of_any outcome
  obtain ⟨user', -, random, platform⟩ := aux_pointers_iff ⟨0, 0, 0⟩ 0 (fun _ => 0) (fun _ => 0) accepted
  exact ⟨image, user', accepted, random.2 (by decide), platform.2 (by decide)⟩

theorem aux_pointers_longArgument :
    ∃ image, setupUserstack firstBlock.vaddr none [List.replicate 4080 97] [] = some image ∧
      (auxEntries ⟨0, 0, 0⟩ 0 image.aux).lookup atRandom ≠ some (image.copied (image.aux + auxLast * 8)) ∧
      (auxEntries ⟨0, 0, 0⟩ 0 image.aux).lookup atPlatform ≠ some (image.copied (image.aux + (auxLast + 2) * 8)) := by
  refine holds_of_any ?_
  decide +kernel

end JinyKernel.Elf
