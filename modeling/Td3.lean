import Td3.Server.Request
import Td3.Lib.Int32
import Td3.Lib.Buffer
import Td3.Lib.LittleEndian
import Td3.Lib.Ring
import Td3.Driver.Bmp280
import Td3.Driver.CharDevice
import Td3.Driver.I2c
import Td3.Driver.I2cRead
import Td3.Kernel.Scheduler
import Td3.Kernel.Vector
import Td3.Kernel.ContextSwitch
import Td3.Kernel.Ticks
import Td3.Kernel.DeviceIrq
import Td3.Kernel.DriverRegisters
import Td3.Kernel.Neon
import Td3.Kernel.Syscall
import Td3.Kernel.SyscallTable
import Td3.Kernel.Mmu
import Td3.Kernel.MmuPages
import Td3.Kernel.MmuLoops
import Td3.Kernel.MmuFill
import Td3.Driver.I2cTransmit
import Td3.Driver.I2cSequence
import Td3.Driver.I2cOutcomes
import Td3.Server.Config
import Td3.Server.Sem
import Td3.Server.Clients
import Td3.Server.Descriptors
import Td3.Kernel.Timer
import Td3.Server.Segmentation
import Td3.Kernel.AddTask
import Td3.Kernel.MemCopy
import Td3.Kernel.AddressSpace
import Td3.Kernel.Sections
import Td3.Kernel.MemoryMap
import Td3.Kernel.TaskInit
import Td3.Kernel.TaskImages
import Td3.Kernel.Isolation
import Td3.Server.Malformed
import Td3.Server.Parsing
import Td3.Server.Update
import Td3.Server.Settings
import Td3.Server.TempSensor
import Td3.Server.MovingAverage
import Td3.Server.Stream
import Td3.Server.Response
import Td3.Server.Delivery
import Td3.Server.SensorTimer
import Td3.Server.ConfigSignal
import Td3.Driver.Probe
import Td3.Driver.I2cStale
import Td3.Kernel.FirstDispatch
import Td3.Kernel.FreeSlots
import Td3.Kernel.Abort
import Td3.Kernel.DemandMap
import Td3.Kernel.DemandBuild
import Td3.Kernel.GicSets
import Td3.Kernel.SharedLine
import Td3.Driver.I2cInit
import Td3.Driver.I2cClock
import Td3.Driver.Bmp280Init
import Td3.Driver.Bmp280Sample
import Td3.Kernel.DemandMapper
import Td3.Kernel.SectionDomains
import Td3.Kernel.PoolBound
import Td3.Kernel.CleanStart
import Td3.Kernel.Random
import Td3.Kernel.TimerMs
import Td3.Kernel.MemTest
import Td3.Driver.BusBusy
import Td3.Driver.Ioctl
import Td3.Driver.I2cIndex
import Td3.Lib.Sequential
import Td3.Driver.I2cAtomic
import Td3.Driver.I2cProgress
import Td3.Kernel.UserMode
import Td3.Kernel.Start
import Td3.Kernel.KernelCopy
import Td3.Lib.Reader
import Td3.Lib.Http
import Td3.Lib.Json
import Td3.Server.UpdateJson
import Td3.Server.Exchange
import Td3.Server.SensorQuit
import Td3.Server.Thermometer
import Td3.Kernel.AbtHandler
import Td3.Lib.FlatMemory
import Td3.Kernel.TaskMemory
import Td3.Kernel.TimeSharing
