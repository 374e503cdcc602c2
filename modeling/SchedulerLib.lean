import SchedulerLib.Lib.World
import SchedulerLib.Lib.Alike
import SchedulerLib.Lib.History
import SchedulerLib.Lib.Fifo
import SchedulerLib.Lib.Offers
import SchedulerLib.Lib.Backlog
import SchedulerLib.Lib.RoundRobin
import SchedulerLib.Lib.Slots
import SchedulerLib.Lib.Layout
import SchedulerLib.Lib.HalfRange
import SchedulerLib.Lib.Loop
import SchedulerLib.Lib.Bag
import SchedulerLib.Lib.Preemption
import SchedulerLib.Lib.PreemptionRules
import SchedulerLib.Lib.Linearization
import SchedulerLib.Lib.ReleaseGrid
import SchedulerLib.Scheduler.Model
import SchedulerLib.Scheduler.Frame
import SchedulerLib.Scheduler.Selection
import SchedulerLib.Scheduler.ReadySet
import SchedulerLib.Scheduler.Cadence
import SchedulerLib.Scheduler.CatchUp
import SchedulerLib.Scheduler.Punctual
import SchedulerLib.Scheduler.Accounting
import SchedulerLib.Scheduler.Stats
import SchedulerLib.Scheduler.RoundRobin
import SchedulerLib.Scheduler.HandOver
import SchedulerLib.Scheduler.Moves
import SchedulerLib.Scheduler.TaskTable
import SchedulerLib.Scheduler.AtomicAdd
import SchedulerLib.Scheduler.RegistrationOrder
import SchedulerLib.Scheduler.Completions
import SchedulerLib.Scheduler.Misses
import SchedulerLib.Scheduler.Overruns
import SchedulerLib.Scheduler.TraceLog
import SchedulerLib.Scheduler.Instrumentation
import SchedulerLib.IsrBuffer.Ring
import SchedulerLib.IsrBuffer.RingRefinement
import SchedulerLib.IsrBuffer.RingHistory
import SchedulerLib.IsrBuffer.TypedRing
import SchedulerLib.IsrBuffer.RingPreemption
import SchedulerLib.Services.Uart
import SchedulerLib.Services.UartOrder
import SchedulerLib.Services.UartConservation
import SchedulerLib.Services.Motor
import SchedulerLib.Services.MotorRings
import SchedulerLib.Services.MotorCommand
import SchedulerLib.Services.MotorFault
import SchedulerLib.Services.MotorLatch
import SchedulerLib.Services.Eeprom
import SchedulerLib.Services.EepromOrder
import SchedulerLib.Services.IrqRecords
import SchedulerLib.Services.Fsi
import SchedulerLib.Services.Ipc
import SchedulerLib.Services.Ethernet
import SchedulerLib.Services.Hints
import SchedulerLib.Services.IrqDelivery
import SchedulerLib.Services.RecordDelivery
import SchedulerLib.Services.RecordPreemption
import SchedulerLib.Services.EthernetDelivery
import SchedulerLib.Services.DrainSizing
import SchedulerLib.Scheduler.Schedulability
import SchedulerLib.Services.HostedRecords
import SchedulerLib.IsrBuffer.Channel
import SchedulerLib.Services.UartReceive
import SchedulerLib.Services.EepromPreemption
import SchedulerLib.Services.MotorPreemption
import SchedulerLib.Services.HostedServices
import SchedulerLib.Services.Lossless
import SchedulerLib.Services.RecordsLossless
