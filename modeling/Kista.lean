import Kista.LoadAnalysis.TimeDemand
import Kista.Network.Stranding
import Kista.Scheduling.Dispatch
import Kista.Tdma.BandwidthRequests
import Kista.Tdma.Configuration
import Kista.Tdma.Delays
import Kista.Tdma.Divisions
import Kista.Tdma.SlotDisjointness
import Kista.Scheduling.Constructs
import Kista.Scheduling.PeriodicTask
import Kista.Scheduling.ActivationLaw
import Kista.Scheduling.ResponseTimes
import Kista.Scheduling.Rtos
import Kista.Scheduling.StateMachine
import Kista.Scheduling.Exclusivity
import Kista.Scheduling.TaskCoherence
import Kista.Scheduling.SchedulingTimes
import Kista.Scheduling.Serving
import Kista.Scheduling.PriorityCompliance
import Kista.Tdma.Timeline
import Kista.Tdma.TransmissionDelay
import Kista.Resources.LinkProperties
import Kista.Resources.MessageSizes
import Kista.Tdma.MaxDelayLevels
import Kista.Tdma.DelayCache
import Kista.Containers.Fallible
import Kista.Containers.OrderedMap
import Kista.Scheduling.PolicyTables
import Kista.Resources.MappedLinks
import Kista.Network.Accounting
import Kista.Network.CommSchedule
import Kista.Network.EmptyDispatch
import Kista.Network.SendOrder
import Kista.Network.ExactlyOnce
import Kista.Kernel.Log
import Kista.Kernel.Waveform
import Kista.Scheduling.Occupation
import Kista.Scheduling.StaticSchedule
import Kista.SynchComm.Buffer
import Kista.SynchComm.DataEvents
import Kista.SynchComm.EventMemory
import Kista.SynchComm.Throughput
import Kista.SynchComm.ReadPermits
import Kista.Containers.Sorting
import Kista.Scheduling.RoundRobin
import Kista.Scheduling.Deadlines
import Kista.Scheduling.PriorityOrder
import Kista.Energy.PowerAccounters
import Kista.Energy.PowerProbe
import Kista.Scheduling.Consumption
import Kista.Scheduling.TaskRule
import Kista.Scheduling.ThreadWaits
import Kista.Scheduling.SignalLevels
import Kista.Scheduling.Completion
import Kista.Scheduling.Hyperperiod
import Kista.Scheduling.MissedDeadlines
import Kista.LoadAnalysis.ImmediateExit
import Kista.LoadAnalysis.Sustainability
import Kista.Scheduling.MonotonicOrders
import Kista.Tdma.DelayMonotonicity
import Kista.Tdma.OffsetDelay
import Kista.Tdma.OverlapCheck
import Kista.Containers.Ranges
import Kista.Containers.SkippingScan
import Kista.Tdma.SlotSearch
import Kista.Tdma.FirstFit
import Kista.Tdma.ManualSearch
import Kista.Tdma.AutomaticAllocation
import Kista.Tdma.SlotAccounting
import Kista.Containers.ArrayHeap
import Kista.LoadAnalysis.Convergence
import Kista.Scheduling.DeadlineSettings
import Kista.Scheduling.LeastCommonMultiple
import Kista.SynchComm.MessageValues
import Kista.Frontend.ApplicationMapping
import Kista.Tracing.TimeAxis
import Kista.Tracing.UnfoldedTrace
import Kista.Tracing.RecordedInstants
import Kista.Tracing.CompactTrace
import Kista.RealTime.FixedPriority
import Kista.Scheduling.AcceptedResponses
import Kista.Scheduling.RecordedSchedule
import Kista.Kernel.Census
import Kista.Network.Channels
import Kista.Network.Delivery
import Kista.Tracing.BetweenStamps
import Kista.Tracing.Drawing
import Kista.Tracing.Picture
import Kista.Network.Latency
import Kista.Scheduling.ExactResponses
import Kista.Scheduling.SimulationLimit
import Kista.Scheduling.Utilizations
