import JinyKernel.Tarfs.Run

namespace JinyKernel.Tarfs

open List Run

section

variable (fs : TarFs) (driver : Driver)

end

-- The calls behind the scan: a file is made by `open` with O_CREAT.
def call (fs : TarFs) : Event -> Option TarFs
  | .create driver filename directory => (openFile fs driver filename true directory).map Prod.snd
  | event => step fs event

section

variable {fs : TarFs} {scan : Scan}

end

end JinyKernel.Tarfs
