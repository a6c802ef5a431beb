import VPlc.Core.Scheduler
import VPlc.Loop.Fold
import VPlc.Proofs.MappingApart
import VPlc.Proofs.MappingForest
import VPlc.Proofs.WebWrites
import VPlc.Proofs.LoaderSpec
import VPlc.Proofs.ScanWrites
import VPlc.Proofs.ScanSecrecy
import VPlc.Proofs.ScanMirror
import VPlc.Bytes.Word
import VPlc.S7.Server
import VPlc.Proofs.S7Cycle
import VPlc.Proofs.S7Writes
import VPlc.Logic.State
import VPlc.Logic.Trim
import VPlc.Proofs.TrimStop
import VPlc.Bytes.Wire
import VPlc.Modbus.Server
import VPlc.Proofs.ModbusSpec
import VPlc.Proofs.ModbusFraming
import VPlc.Bytes.Nibble
import VPlc.Mc.Server
import VPlc.Proofs.McSpec
import VPlc.Xgt.Client
import VPlc.Xgt.Wire
import VPlc.Proofs.XgtDrain
import VPlc.Proofs.XgtParse
import VPlc.Proofs.XgtWalk
import VPlc.Proofs.XgtRun
import VPlc.Proofs.XgtBlocks
import VPlc.Logic.Assembly
import VPlc.Proofs.AssemblySpec
import VPlc.Proofs.AssemblyInterlock
import VPlc.Json.Value
import VPlc.Tags.Manager
import VPlc.Proofs.TagsPersist
import VPlc.Proofs.MappingsReload
import VPlc.Net.Segmentation
import VPlc.Proofs.TcpFraming
import VPlc.Modbus.Clients
import VPlc.Proofs.ModbusClients
import VPlc.Loop.Each
import VPlc.Proofs.TrimConveyor
import VPlc.Proofs.TrimFeedback
import VPlc.Proofs.AssemblyCount
import VPlc.Proofs.TrimGate
import VPlc.Logic.Mock
import VPlc.Proofs.LogicScans
import VPlc.Proofs.AssemblyStop
import VPlc.Proofs.MockLevel
import VPlc.Core.AreaTable
import VPlc.Text.Getline
import VPlc.Text.Numeral
import VPlc.Proofs.AddressTable
import VPlc.Proofs.AddressSpec
import VPlc.Proofs.StoreLaws
import VPlc.Proofs.TagValues
import VPlc.Proofs.ReloadTransparency
import VPlc.Proofs.McReply
import VPlc.Bytes.Access
import VPlc.Mc.Access
import VPlc.Modbus.Access
import VPlc.Proofs.XgtReply
import VPlc.Proofs.ModbusAccess
import VPlc.Proofs.McAccess
import VPlc.Proofs.IndexSafe
import VPlc.Proofs.XgtAccess
import VPlc.Xgt.Name
import VPlc.Proofs.XgtNames
import VPlc.Core.Statistics
import VPlc.Loop.Running
import VPlc.Proofs.ScanStatistics
import VPlc.Proofs.TagList
import VPlc.Proofs.WebReports
import VPlc.Threads.Atomic
import VPlc.Core.Calls
import VPlc.Core.Requests
import VPlc.Proofs.SharedMemory
import VPlc.Core.ScanCalls
import VPlc.Proofs.ScanAtomic
import VPlc.Proofs.TrimStation
import VPlc.Core.Pacing
import VPlc.Loop.Deadline
import VPlc.Loop.Progress
import VPlc.Proofs.AssemblyCycle
import VPlc.Proofs.ScanPacing
import VPlc.Proofs.XgtFraming
import VPlc.Loop.TwoPoint
import VPlc.Mirror.Register
import VPlc.Proofs.Gateway
import VPlc.Proofs.MockCycle
import VPlc.Net.Sockets
import VPlc.Proofs.Sockets
import VPlc.Proofs.TrimStandstill
