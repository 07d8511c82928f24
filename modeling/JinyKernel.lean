import JinyKernel.Paging.Fork
import JinyKernel.Paging.Unmap
import JinyKernel.WaitQueue.Run
import JinyKernel.Mutex.Run
import JinyKernel.Tcp.Receive
import JinyKernel.Tarfs.Remount
import JinyKernel.P9.Codec
import JinyKernel.Net.Frames
import JinyKernel.Ipc.FutexRun
import JinyKernel.Sched.Affinity
import JinyKernel.Exit.Run
import JinyKernel.Epoll.Run
import JinyKernel.Slab.Sizes
import JinyKernel.Netbuf.Run
import JinyKernel.Tcp.Window
import JinyKernel.Net.Datagram
import JinyKernel.FileIo.Size
import JinyKernel.NetSched.Drain
import JinyKernel.NetSched.Wakeup
import JinyKernel.Fault.Isolation
import JinyKernel.Vm.Mapping
import JinyKernel.Vm.Placement
import JinyKernel.Buddy.Regions
import JinyKernel.Tarfs.Table
import JinyKernel.Tarfs.Paths
import JinyKernel.Vm.Fork
import JinyKernel.Ipc.Waiting
import JinyKernel.Pipe.Returns
import JinyKernel.Elf.Userstack
import JinyKernel.Syscall.Poll
import JinyKernel.Blk.Status
import JinyKernel.Virtio.Balloon
import JinyKernel.Net.Sockets
import JinyKernel.Symbols.Registry
