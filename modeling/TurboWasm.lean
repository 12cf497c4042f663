import TurboWasm.Store.Convert
import TurboWasm.Memory.Run
import TurboWasm.Memory.Interrupt
import TurboWasm.Link
import TurboWasm.Threads.Run
import TurboWasm.Component.Subtask.Run
import TurboWasm.Component.Endpoint.Conservation
import TurboWasm.Component.Task.Run
import TurboWasm.Component.Codec.Run
import TurboWasm.Component.TableRun
import TurboWasm.Component.Scalars
import TurboWasm.Exec.Locals
import TurboWasm.Wasi.Filesystem
import TurboWasm.Wasi.Readdir
import TurboWasm.NativeIo
import TurboWasm.Deadline
import TurboWasm.Sha256
