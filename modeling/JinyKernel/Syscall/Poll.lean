import JinyKernel.Machine

-- `SYS_poll_PART` (kernel/syscall.cc).

namespace JinyKernel.Syscall

variable {peek : Nat -> Int -> Option Int} {nfds : Int}

end JinyKernel.Syscall
