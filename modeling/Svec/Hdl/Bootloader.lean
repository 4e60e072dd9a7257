/-
  Hdl/Bootloader.lean --- the bootloader core, `sfpga_bootloader.vhd`.

  The core wires the register block, the flash boot engine with its flash
  controller, and the loader together; a multiplexer gives the loader to the
  flash engine after a reset, and to the host once the trigger sequence was seen.

  The library cores it instantiates are not part of this repository and enter as
  `Parts`: the FIFO and the bus adapter by their contracts, `spi_master` and
  `gc_sync_ffs` as components of which nothing but determinism is known.  What a
  result needs to know of them besides is a hypothesis of that result.
-/
import Svec.Hdl.XloaderWb
import Svec.Hdl.FlashBoot
import Svec.Hdl.SpiFlash
import Svec.Hdl.XilinxLoader
import Svec.Hdl.BootTrigger

set_option autoImplicit false

namespace Svec.Hdl

open Svec.Data Svec.Sync

/-- The input ports of `gc_sync_ffs`. -/
structure SyncIn where
  rstN : Bool
  data : Bool
  deriving DecidableEq, Repr, Inhabited

/-- `wb_slave_adapter` between two classic buses, the slave side with byte and the master
side with word addresses: it passes the transaction through in the same cycle. -/
structure ClassicAdapter where
  masterO : WbMasterOut → WbMasterOut
  masterO_cyc : ∀ w, (masterO w).cyc = w.cyc
  masterO_stb : ∀ w, (masterO w).stb = w.stb
  masterO_we : ∀ w, (masterO w).we = w.we
  masterO_dat : ∀ w, (masterO w).dat = w.dat
  masterO_adr : ∀ w, (masterO w).adr = w.adr >>> 2

attribute [simp] ClassicAdapter.masterO_cyc ClassicAdapter.masterO_stb ClassicAdapter.masterO_we
  ClassicAdapter.masterO_dat ClassicAdapter.masterO_adr

/-- The contract is met by a shift of the address. -/
def shiftAdapter : ClassicAdapter where
  masterO w := { w with adr := w.adr >>> 2 }
  masterO_cyc _ := rfl
  masterO_stb _ := rfl
  masterO_we _ := rfl
  masterO_dat _ := rfl
  masterO_adr _ := rfl

namespace Bootloader

/-- The library cores of `sfpga_bootloader`. -/
structure Parts where
  fifo : FifoSync FifoEntry 256
  spiMaster : Component SpiIn SpiOut
  syncFfs : Component SyncIn Bool
  adapter : ClassicAdapter

/-- The parts with the given flash: a FIFO in a list, two flip-flops a pin. -/
def standIns (content : BitVec 24 → Byte) : Parts where
  fifo := listFifo FifoEntry 256 default
  spiMaster := SpiFlash.master content
  syncFfs :=
    { State := Bool × Bool
      step := fun s i => if !i.rstN then (false, false) else (i.data, s.1)
      out := fun s _ => s.2 }
  adapter := shiftAdapter

/-- `t_boot_source`. -/
inductive BootSource where
  | flash | host
  deriving DecidableEq, Repr, Inhabited

/-- `t_xilinx_boot_in`. -/
structure XilinxBootIn where
  swrst : Bool
  start : Bool
  data : Word
  dsize : BitVec 2
  dlast : Bool
  msbf : Bool
  empty : Bool
  startup : Bool
  clkDiv : BitVec 7
  deriving DecidableEq, Repr, Inhabited

/-- `t_xilinx_boot_out`. -/
structure XilinxBootOut where
  rd : Bool
  done : Bool
  error : Bool
  busy : Bool
  deriving DecidableEq, Repr, Inhabited

/-- The input ports of the core. -/
structure In where
  rstN : Bool
  wb : WbMasterOut
  xlxInitB : Bool
  xlxDone : Bool
  bootEn : Bool
  spiMiso : Bool
  deriving DecidableEq, Repr, Inhabited

/-- The registers of the core and of everything in it. -/
structure Regs (P : Parts) where
  wb : XloaderWb.Regs
  fifo : P.fifo.State
  bootSource : BootSource
  trig : BootTrigger.Regs
  flash : FlashBoot.Regs
  m25p : M25pFlash.Regs
  spi : P.spiMaster.State
  xldr : XilinxLoader.Regs
  initSync : P.syncFfs.State
  doneSync : P.syncFfs.State

/-- The registers after power-up. -/
def powerUp (content : BitVec 24 → Byte) : Regs (standIns content) where
  wb := default
  fifo := ([], default)
  bootSource := .flash
  trig := default
  flash := default
  m25p := default
  spi := (default : SpiFlash.State)
  xldr := default
  initSync := (false, false)
  doneSync := (false, false)

/-- `g_idr_value`, as the top level sets it. -/
def gIdrValue : Word := 0x53564543#32

section Signals

variable {P : Parts} (r : Regs P) (i : In)

/-- `wb_in`: the bus behind the adapter. -/
def wbIn (P : Parts) (i : In) : WbMasterOut := P.adapter.masterO i.wb

/-- The FAR signals of `regs_in`. -/
def farOut : FarOut := XloaderWb.far r.wb (wbIn P i)

/-- The inputs of `U_SPI_Master`. -/
def spiIn : SpiIn := M25pFlash.spiIn r.m25p i.rstN (farOut r i) i.spiMiso

/-- The outputs of `U_SPI_Master`. -/
def spiOut : SpiOut := P.spiMaster.out r.spi (spiIn r i)

/-- `flash_ready`. -/
def flashReady : Bool := M25pFlash.readyO r.m25p r.flash.flashSetAddr r.flash.flashRead

/-- `from_flash_ldr`.  The engine does not drive `swrst`. -/
def fromFlashLdr : XilinxBootIn where
  swrst := false
  start := r.flash.xldrStart
  data := FlashBoot.xldrDataO r.flash
  dsize := r.flash.xldrDsize
  dlast := r.flash.xldrDlast
  msbf := false
  empty := r.flash.xldrEmpty
  startup := true
  clkDiv := FlashBoot.xldrClkDiv

/-- `from_host_ldr`. -/
def fromHostLdr : XilinxBootIn where
  swrst := r.wb.csrSwrst
  start := r.wb.csrStart && i.bootEn
  data := (P.fifo.rdData r.fifo).xdata
  dsize := (P.fifo.rdData r.fifo).xsize
  dlast := (P.fifo.rdData r.fifo).xlast
  msbf := r.wb.csrMsbfInt
  empty := P.fifo.rdEmpty r.fifo
  startup := r.wb.csrExit
  clkDiv := 0#1 ++ r.wb.csrClkdivInt

/-- `to_xilinx_boot`, from `p_select_boot_source`. -/
def toXilinxBoot : XilinxBootIn :=
  match r.bootSource with
  | .flash => fromFlashLdr r
  | .host => fromHostLdr r i

/-- `from_xilinx_boot`. -/
def fromXilinxBoot : XilinxBootOut where
  rd := XilinxLoader.csrRd r.xldr (toXilinxBoot r i).empty
  done := r.xldr.csrDone
  error := r.xldr.csrError
  busy := XilinxLoader.csrBusy r.xldr

/-- What the side of the multiplexer that does not own the loader sees. -/
def notSelected : XilinxBootOut := ⟨false, false, false, true⟩

/-- `to_flash_ldr`. -/
def toFlashLdr : XilinxBootOut :=
  match r.bootSource with
  | .flash => fromXilinxBoot r i
  | .host => notSelected

/-- `to_host_ldr`. -/
def toHostLdr : XilinxBootOut :=
  match r.bootSource with
  | .flash => notSelected
  | .host => fromXilinxBoot r i

/-- `regs_out`: the local registers or-ed with those of the flash controller. -/
def regsOut : XloaderWb.RegsIn where
  csrDone := (toHostLdr r i).done
  csrError := (toHostLdr r i).error
  csrBusy := (toHostLdr r i).busy
  farData := (spiOut r i).data
  farReady := (spiOut r i).ready
  idr := gIdrValue
  fifoRdReq := (toHostLdr r i).rd

/-- The FIFO's flags.  The fill counter has eight bits. -/
def fifoFlags : XloaderWb.FifoFlags where
  full := P.fifo.wrFull r.fifo
  empty := P.fifo.rdEmpty r.fifo
  usedw := BitVec.ofNat 8 (P.fifo.contents r.fifo).length

/-- What `p_detect_boot_trigger` reads. -/
def trigIn : BootTrigger.In := ⟨i.rstN, r.wb.btrigrWr, XloaderWb.btrigr (wbIn P i)⟩

/-- What the flash boot engine reads. -/
def flashIn : FlashBoot.In where
  rstN := i.rstN
  enable := r.bootSource = .flash
  xldrDone := (toFlashLdr r i).done
  xldrRd := (toFlashLdr r i).rd
  flashReady := flashReady r
  flashData := r.m25p.dataO

/-- What the flash controller reads. -/
def m25pIn : M25pFlash.In where
  rstN := i.rstN
  far := farOut r i
  setAddr := r.flash.flashSetAddr
  addr := r.flash.flashAddr
  read := r.flash.flashRead
  spiReady := (spiOut r i).ready
  spiRdata := (spiOut r i).data

/-- The inputs of a pin's synchroniser. -/
def syncIn (pin : Bool) : SyncIn := ⟨i.rstN, pin⟩

/-- What the loader reads. -/
def xldrIn : XilinxLoader.In where
  rstN := i.rstN
  csrSwrst := (toXilinxBoot r i).swrst
  csrStart := (toXilinxBoot r i).start
  csrClkDiv := (toXilinxBoot r i).clkDiv
  csrData := (toXilinxBoot r i).data
  csrDsize := (toXilinxBoot r i).dsize
  csrMsbf := (toXilinxBoot r i).msbf
  csrDlast := (toXilinxBoot r i).dlast
  csrEmpty := (toXilinxBoot r i).empty
  csrStartup := (toXilinxBoot r i).startup
  initBSynced := P.syncFfs.out r.initSync (syncIn i i.xlxInitB)
  doneSynced := P.syncFfs.out r.doneSync (syncIn i i.xlxDone)

/-- `p_select_boot_mode`: the flash after a reset, the host after the trigger sequence. -/
def pSelectBootMode : BootSource :=
  if !i.rstN then .flash
  else if r.trig.bootTrigP1Int then .host
  else r.bootSource

/-- One rising edge of `clk_sys_i`. -/
def step : Regs P where
  wb := XloaderWb.step r.wb i.rstN (wbIn P i) (fifoFlags r) (regsOut r i)
  fifo := P.fifo.step r.fifo (XloaderWb.fifoIn r.wb i.rstN (regsOut r i).fifoRdReq)
  bootSource := pSelectBootMode r i
  trig := BootTrigger.pDetectBootTrigger r.trig (trigIn r i)
  flash := FlashBoot.step r.flash (flashIn r i)
  m25p := M25pFlash.step r.m25p (m25pIn r i)
  spi := P.spiMaster.step r.spi (spiIn r i)
  xldr := XilinxLoader.step r.xldr (xldrIn r i)
  initSync := P.syncFfs.step r.initSync (syncIn i i.xlxInitB)
  doneSync := P.syncFfs.step r.doneSync (syncIn i i.xlxDone)

/-! ## Output ports -/

/-- `wb_dat_o`, `wb_ack_o`, `wb_stall_o`: the adapter passes the answer back. -/
def wbOut : WbMasterIn := ⟨XloaderWb.wbAck r.wb, false, r.wb.rddataReg⟩

/-- `boot_trig_p1_o`. -/
def bootTrigP1 : Bool := BootTrigger.bootTrigP1 r.trig r.flash.noBitstreamP1

/-- `boot_exit_p1_o`. -/
def bootExitP1 : Bool := r.wb.csrExit

/-- The configuration pins of the application FPGA. -/
structure ConfigPins where
  programB : Bool
  cclk : Bool
  din : Bool
  deriving DecidableEq, Repr, Inhabited

/-- `xlx_program_b_o`, `xlx_cclk_o` and `xlx_din_o`. -/
def configPins : ConfigPins := ⟨r.xldr.xlxProgramB, r.xldr.xlxCclk, r.xldr.xlxDin⟩

/-- The pins of the bitstream flash. -/
structure SpiPins where
  csN : Bool
  sclk : Bool
  mosi : Bool
  deriving DecidableEq, Repr, Inhabited

/-- `spi_cs_n_o`, `spi_sclk_o` and `spi_mosi_o`. -/
def spiPins : SpiPins := ⟨(spiOut r i).csN, (spiOut r i).sclk, (spiOut r i).mosi⟩

end Signals

/-- The core at every cycle, from the registers `s`. -/
def core {P : Parts} (s : Regs P) (inp : ℕ → In) : ℕ → Regs P := run step s inp

theorem core_succ {P : Parts} (s : Regs P) (inp : ℕ → In) (t : ℕ) :
    core s inp (t + 1) = step (core s inp t) (inp t) := rfl

/-! ## What one step does, register by register -/

section Step

variable {P : Parts} (r : Regs P) (i : In)

@[simp] theorem step_wb : (step r i).wb =
    XloaderWb.step r.wb i.rstN (wbIn P i) (fifoFlags r) (regsOut r i) := rfl
@[simp] theorem step_bootSource : (step r i).bootSource = pSelectBootMode r i := rfl
@[simp] theorem step_trig :
    (step r i).trig = BootTrigger.pDetectBootTrigger r.trig (trigIn r i) := rfl
@[simp] theorem step_flash : (step r i).flash = FlashBoot.step r.flash (flashIn r i) := rfl
@[simp] theorem step_m25p : (step r i).m25p = M25pFlash.step r.m25p (m25pIn r i) := rfl
@[simp] theorem step_xldr : (step r i).xldr = XilinxLoader.step r.xldr (xldrIn r i) := rfl

end Step

end Bootloader

end Svec.Hdl
