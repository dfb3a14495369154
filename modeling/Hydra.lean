import Hydra.Foundation.Run
import Hydra.Foundation.Count
import Hydra.Foundation.Table
import Hydra.Foundation.Loop
import Hydra.Foundation.Checked
import Hydra.Foundation.Blocks
import Hydra.Foundation.Exchange
import Hydra.Foundation.Powers
import Hydra.Foundation.Probe
import Hydra.Foundation.Countdown
import Hydra.Foundation.Decimal
import Hydra.Foundation.Lending
import Hydra.Foundation.Stack
import Hydra.Foundation.Fields
import Hydra.Foundation.Spread
import Hydra.Wire.Message
import Hydra.Wire.Layout
import Hydra.Monitor.Session
import Hydra.Monitor.Accounting
import Hydra.Monitor.Tables
import Hydra.Monitor.Connections
import Hydra.Monitor.Memory
import Hydra.Monitor.EvictMem
import Hydra.Monitor.ClientChoice
import Hydra.Manager.KernelCb
import Hydra.Manager.Session
import Hydra.Manager.Selection
import Hydra.Manager.Ranking
import Hydra.Manager.SetUp
import Hydra.Manager.Rounds
import Hydra.Manager.SlabMap
import Hydra.Manager.Disconnect
import Hydra.Manager.FreeStack
import Hydra.Manager.Independence
import Hydra.Manager.EvictData
import Hydra.Manager.RoundPolls
import Hydra.Manager.Portal
import Hydra.Manager.PortalFile
import Hydra.Manager.Sessions
import Hydra.Protocol.Activity
import Hydra.Protocol.Network
import Hydra.Protocol.Ownership
import Hydra.Protocol.StopMessages
import Hydra.Protocol.Victims
import Hydra.Protocol.Teardown
import Hydra.Protocol.BindSingle
import Hydra.Protocol.SharedMonitors
import Hydra.DataPath.Path
import Hydra.DataPath.Contexts
import Hydra.DataPath.Pools
import Hydra.DataPath.Completion
import Hydra.DataPath.Drain
import Hydra.DataPath.Queues
import Hydra.DataPath.Replicas
import Hydra.DataPath.Timeline
import Hydra.DataPath.ReadWrite
import Hydra.DataPath.ReadPlan
import Hydra.DataPath.Failures
import Hydra.DataPath.Gather
import Hydra.DataPath.Striping
import Hydra.DataPath.Address
import Hydra.DataPath.Faults
import Hydra.DataPath.FaultRate
import Hydra.DataPath.Hctx
import Hydra.Coding.Gf256
import Hydra.Coding.Invert
import Hydra.Coding.DecodeMatrix
import Hydra.Coding.ErrorLists
import Hydra.Foundation.Passes
import Hydra.Coding.Tables
import Hydra.Coding.Encode
import Hydra.Foundation.Systematic
import Hydra.Coding.Avx
import Hydra.Coding.Matrices
import Hydra.Coding.Recovery
import Hydra.Foundation.Lagged
import Hydra.Foundation.Heap
import Hydra.Foundation.Bytes
import Hydra.DataPath.Twister
import Hydra.DataPath.FaultDraws
import Hydra.DataPath.FaultsTogether
import Hydra.DataPath.Dispatch
import Hydra.Monitor.FreeMem
import Hydra.Manager.Devices
