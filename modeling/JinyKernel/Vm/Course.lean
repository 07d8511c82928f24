import JinyKernel.Vm.Unmap

namespace JinyKernel.Vm

def anonymousBase (mm : Mm) : Nat := if mm.anonymousAddr = 0 then userAnonymousAddr else mm.anonymousAddr

variable (task : Task) (mm : Mm) (args : MmapArgs)

def anonymousVma : Vma :=
  { newVma args with
    name := if task.hpThread then "hp_anonymous" else "anonymous"
    vmStart := anonymousBase mm
    vmEnd := wrap (anonymousBase mm + args.len)
    hugepagesEnabled := decide (args.name = "syscall") && task.userHugepages }

-- No kernel address of a user task, and memory for an area.
def MmapArgs.Proceeds : Prop :=
  ¬ (task.kernelMm = false ∧ kernelCodeStart ≤ args.addr ∧ args.addr < kaddrspaceEnd) ∧ args.slab = true

-- The ways a call can go, each with what it returns.
inductive Course : Option (Nat × Mm) -> Prop
  | halt (missed : vmFindVma mm.mmap args.addr args.len = none) (stops : ¬ args.Proceeds task) : Course none
  | refuse (missed : vmFindVma mm.mmap args.addr args.len = none) (stops : ¬ args.Proceeds task) : Course (some (0, mm))
  | found {early late : List Vma} {vma : Vma} (search : vmFindVma mm.mmap args.addr args.len = some early.length)
      (split : mm.mmap = early ++ vma :: late) : Course (some (args.addr,
        { mm with mmap := early ++ { vma with vmFlags := args.flags, vmProt := args.prot } :: late }))
  | file {file : File} (missed : vmFindVma mm.mmap args.addr args.len = none) (proceeds : args.Proceeds task)
      (named : args.file = some file) : Course (some (mmapLink mm (fileVma args file)))
  | given (missed : vmFindVma mm.mmap args.addr args.len = none) (proceeds : args.Proceeds task)
      (named : args.file = none) (fixed : ¬ args.Anonymous task) : Course (some (mmapLink mm (newVma args)))
  | placed (missed : vmFindVma mm.mmap args.addr args.len = none) (proceeds : args.Proceeds task)
      (named : args.file = none) (anonymous : args.Anonymous task)
      (blocked : mm.anonymousAddr ≠ 0 -> ∀ index vma, vmFindVma mm.mmap (wrapSub mm.anonymousAddr 100) 10 = some index ->
        mm.mmap[index]? = some vma -> vmFindVmaOvrlap (growVma mm.mmap index (wrap (vma.vmEnd + args.len)))
          index ≠ none) :
      Course (some (mmapLink { mm with anonymousAddr := wrap (anonymousBase mm + args.len) } (anonymousVma task mm args)))
  | grown {early late : List Vma} {vma : Vma} (missed : vmFindVma mm.mmap args.addr args.len = none)
      (proceeds : args.Proceeds task) (named : args.file = none) (anonymous : args.Anonymous task)
      (set : mm.anonymousAddr ≠ 0)
      (search : vmFindVma mm.mmap (wrapSub mm.anonymousAddr 100) 10 = some early.length)
      (split : mm.mmap = early ++ vma :: late) (low : vma.vmStart ≤ wrapSub mm.anonymousAddr 100)
      (high : wrap (wrapSub mm.anonymousAddr 100 + 10) ≤ vma.vmEnd)
      (clear : vmFindVmaOvrlap (growVma mm.mmap early.length (wrap (vma.vmEnd + args.len))) early.length = none) :
      Course (some (wrapSub (wrap (vma.vmEnd + args.len)) args.len,
        { mm with mmap := early ++ { vma with vmEnd := wrap (vma.vmEnd + args.len) } :: late }))

theorem mmapAnonymous_course (missed : vmFindVma mm.mmap args.addr args.len = none) (proceeds : args.Proceeds task)
    (named : args.file = none) (anonymous : args.Anonymous task) :
    Course task mm args (some (mmapAnonymous task mm args)) := by
  have placed := Course.placed missed proceeds named anonymous
  rw [mmapAnonymous]
  by_cases unset : mm.anonymousAddr = 0
  · rw [if_pos unset]
    simp only [anonymousVma, anonymousBase, if_pos unset] at placed
    exact placed fun set => absurd unset set
  rw [if_neg unset]
  simp only [anonymousVma, anonymousBase, if_neg unset] at placed
  cases search : vmFindVma mm.mmap (wrapSub mm.anonymousAddr 100) 10 with
  | none => exact placed fun _ _ _ other => by cases search.symm.trans other
  | some index =>
    obtain ⟨early, vma, late, split, rfl, low, high⟩ := vmFindVma_split search
    have here : mm.mmap[early.length]? = some vma := by simp [split]
    simp only [here]
    split_ifs with clear
    · rw [split, growVma_split]
      exact .grown missed proceeds named anonymous unset search split low high clear
    · refine placed fun _ index area found there => ?_
      obtain rfl := Option.some.inj (search.symm.trans found)
      obtain rfl := Option.some.inj (here.symm.trans there)
      exact clear

theorem vmMmap_course : Course task mm args (vmMmap task mm args) := by
  rw [vmMmap]
  split
  next search =>
    obtain ⟨early, vma, late, split, rfl, low, high⟩ := vmFindVma_split search
    rw [split, modify_split]
    exact .found search split
  next missed =>
    by_cases proceeds : args.Proceeds task
    · rw [if_neg proceeds.1, if_neg (by simp [proceeds.2])]
      split
      next named => exact .file missed proceeds named
      next named =>
        split_ifs with anonymous
        · exact mmapAnonymous_course task mm args missed proceeds named anonymous
        · exact .given missed proceeds named anonymous
    · split
      next => exact .halt missed proceeds
      next user =>
        rw [if_pos (by simpa [MmapArgs.Proceeds, user] using proceeds)]
        exact .refuse missed proceeds

end JinyKernel.Vm
