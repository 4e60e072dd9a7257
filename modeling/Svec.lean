import Svec.Sync.Machine
import Svec.Data.Bits
import Svec.Data.Matcher
import Svec.Hdl.XilinxLoader
import Svec.Hdl.Fifo
import Svec.Hdl.BootTrigger
import Svec.Hdl.MiniVme
import Svec.Hdl.M25pFlash
import Svec.Hdl.SpiFlash
import Svec.Hdl.FlashBoot
import Svec.Hdl.XloaderWb
import Svec.Hdl.Bootloader
import Svec.Hdl.SfpgaTop
import Svec.Loader.Moves
import Svec.Loader.Flags
import Svec.Loader.Handshake
import Svec.Loader.Startup
import Svec.Loader.Stuck
import Svec.Loader.Serialise
import Svec.Loader.Session
import Svec.Boot.Trigger
import Svec.Boot.Activation
import Svec.Boot.Exit
import Svec.Boot.Isolation
import Svec.Boot.FlashReader
import Svec.Boot.FlashStream
import Svec.Boot.Verdict
import Svec.Host.Bus
import Svec.Host.SvecCore
import Svec.Host.Stream
import Svec.Host.SvecFlasher
import Svec.Prog.Basic
import Svec.Host.FlashTool
import Svec.Host.NorFlash
import Svec.Host.FlashCommands
import Svec.Host.FlashProgram
import Svec.Host.FlashRegions
import Svec.Host.SvecCoreFpga
import Svec.Host.LoaderCard
import Svec.Host.Deadlock
import Svec.Vme.Ownership
import Svec.Loader.Bounded
import Svec.Boot.CsrAddress
import Svec.Boot.FlashSize
import Svec.Boot.HostFlash
import Svec.Loader.ClockShape
import Svec.Prog.Logged
import Svec.Vme.Dtack
import Svec.Vme.Rest
import Svec.Host.FlashBounds
import Svec.Host.WriteStop
import Svec.Data.Cursor
import Svec.Hdl.SvecBaseRegs
import Svec.Hdl.SvecBaseWr
import Svec.Ddr.Controller
import Svec.Carrier.Phases
import Svec.Ddr.Page
import Svec.Data.Memory
import Svec.Data.Text
import Svec.Hdl.SvecBaseRom
import Svec.Host.Metadata
import Svec.Host.FirmwareVersion
import Svec.Host.AppId
import Svec.Host.BuildInfo
import Svec.Host.FmcBus
import Svec.Host.SubDevices
import Svec.Host.Upload
import Svec.Host.ClockedOut
import Svec.Host.Retries
import Svec.Loader.Registers
import Svec.Boot.HostMode
import Svec.Host.OnCore
import Svec.Boot.FlashFinish
import Svec.Host.FlashedBoot
import Svec.Hdl.Carrier
import Svec.Prog.Script
import Svec.Carrier.Map
import Svec.Carrier.Paths
import Svec.Host.Attributes
import Svec.Host.LifeCycle
