import MhiHost.Cyclic
import MhiHost.Runs
import MhiHost.Internal
import MhiHost.Ring
import MhiHost.Channel
import MhiHost.Config
import MhiHost.Fifo
import MhiHost.TransferFifo
import MhiHost.Host
import MhiHost.Setup
import MhiHost.Lifecycle
import MhiHost.Ledger
import MhiHost.Threads
import MhiHost.Stations
import MhiHost.Occupancy
import MhiHost.Pending
import MhiHost.Suspend
import MhiHost.Doorbells
import MhiHost.Teardown
import MhiHost.Power
import MhiHost.CommandDoorbell
import MhiHost.CommandMatching
import MhiHost.Events
import MhiHost.EventRings
import MhiHost.Credit
import MhiHost.Delivery
import MhiHost.Handlers
import MhiHost.PowerDown
import MhiHost.Holdings
import MhiHost.PciResources
import MhiHost.StatusWork
import MhiHost.SysErr
import MhiHost.SuspendOutcome
import MhiHost.Ethernet
import MhiHost.Mbim
import MhiHost.Qmap
import MhiHost.Binding
import MhiHost.Rows
import MhiHost.DevWake
import MhiHost.Reboot
import MhiHost.Queueing
import MhiHost.RscRing
import MhiHost.UciRead
import MhiHost.UciRemoval
import MhiHost.NetRing
import MhiHost.TxQueue
import MhiHost.RefillWork
import MhiHost.RxBuffers
import MhiHost.MbimSequence
import MhiHost.EventPointers
import MhiHost.MbimDecoders
import MhiHost.Decoding
import MhiHost.Trace
import MhiHost.MbimTrace
import MhiHost.QmapTrace
import MhiHost.SkbLedger
import MhiHost.MbimBlocks
import MhiHost.QmapFrames
import MhiHost.HostOrder
import MhiHost.BusyTransmit
import MhiHost.EventLoops
import MhiHost.EventTables
import MhiHost.StaleMarking
import MhiHost.PollBudget
import MhiHost.UciWrite
import MhiHost.UciPool
import MhiHost.PrepareTransfer
import MhiHost.PowerUp
import MhiHost.Arena
import MhiHost.CtrlSegment
import MhiHost.BhieTable
import MhiHost.FirmwareLoad
import MhiHost.TransferLengths
import MhiHost.EventMirror
import MhiHost.FreeSlots
import MhiHost.RawImage
import MhiHost.CString
import MhiHost.Firehose
import MhiHost.FlashScript
import MhiHost.Replies
import MhiHost.Commands
import MhiHost.Talk
import MhiHost.FlashSession
import MhiHost.ChannelFrame
import MhiHost.Pipeline
import MhiHost.Wakeups
import MhiHost.SharedMemory
import MhiHost.BootSession
import MhiHost.Rddm
import MhiHost.BounceBuffers
import MhiHost.WaitQueue
import MhiHost.UciWaits
import MhiHost.BitField
import MhiHost.Mmio
import MhiHost.WorkList
import MhiHost.TransitionQueue
import MhiHost.ResumeOutcome
import MhiHost.MbimStream
import MhiHost.DtrPool
import MhiHost.TxBuffers
import MhiHost.RingLifetime
import MhiHost.ClientVotes
import MhiHost.QmapStream
import MhiHost.LockLevels
import MhiHost.CoreLocks
import MhiHost.LockOrder
