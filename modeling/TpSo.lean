import TpSo.Collections.QueueADT
import TpSo.Keyboard.CtrlC
import TpSo.Keyboard.SysExec
import TpSo.Machine.Exhaustion
import TpSo.Machine.Unblocking
import TpSo.Memory.BuddyComplete
import TpSo.Memory.Clients
import TpSo.Memory.MyMallocReuse
import TpSo.Memory.MyMallocStatus
import TpSo.ModuleImage.WordCopy
import TpSo.Mvar.Delivery
import TpSo.Pipes.BrokenPipe
import TpSo.Pipes.Fifo
import TpSo.Pipes.OpenPipe
import TpSo.Pipes.ReadCount
import TpSo.Pipes.Retarget
import TpSo.Pipes.Slots
import TpSo.Process.AllOrNothing
import TpSo.Process.Foreground
import TpSo.Process.Exits
import TpSo.Process.Reaping
import TpSo.Scheduler.Aging
import TpSo.Scheduler.ContextSwitch
import TpSo.Scheduler.Levels
import TpSo.Scheduler.Selection
import TpSo.Scheduler.SetPriority
import TpSo.Scheduler.Waiting
import TpSo.Sem.Dangling
import TpSo.Sem.Isolation
import TpSo.Sem.OpenFailure
import TpSo.Sem.TokenSafety
import TpSo.Sem.WakeUps
import TpSo.SharedCounter.Counter
import TpSo.Shell.TypedLine
import TpSo.Shell.HeapNeutral
import TpSo.Terminal.Console
import TpSo.Terminal.Marks
import TpSo.Terminal.Printing
import TpSo.Terminal.Tabs
import TpSo.Text.DigitBuffers
import TpSo.Text.Formats
import TpSo.Text.RoundTrip
import TpSo.Text.ScanWords
import TpSo.Text.Verbatim
import TpSo.Timer.Nodes
import TpSo.Timer.Sleepers
import TpSo.Library.ObjectStore
