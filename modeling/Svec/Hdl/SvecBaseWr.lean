/-
  Hdl/SvecBaseWr.lean --- the page access to the DDR memories in `svec_base_wr.vhd`.

  Each bank has a register with the address of the next access.  An access to the
  bank's page goes to the second port of its memory controller (`ddr3_ctrl`, not part
  of this repository) at that address, whatever the offset in the page; the address
  moves on with the acknowledge.  The register block keeps the strobe of the page up
  until the acknowledge, so only the first cycle of it is passed on.
-/
import Svec.Hdl.SvecBaseRegs

set_option autoImplicit false

namespace Svec.Hdl.SvecBaseWr

open Svec.Data Svec.Hdl.SvecBaseRegs

/-- The registers: those of `inst_svec_base_regs`, and two for each bank. -/
structure Regs where
  base : SvecBaseRegs.Regs
  csrDdrAddr : Bank → Word
  ddrDataStbD : Bank → Bool

/-- The inputs in a cycle of `clk_sys_62m5`. -/
structure In where
  rstSys62m5N : Bool
  carrierWbIn : WbMasterOut
  metadataData : Word
  gAppOffset : Word
  fmcPresence : Word
  ddrCalibDone : Bank → Bool
  pcbrevI : BitVec 5
  buildinfoData : Word
  /-- The other ends of the submaps; for the pages, the memory controllers. -/
  submapIn : Submap → WbMasterIn
  undefined : Word

/-- The inputs of the second port of a memory controller, `wb1_*`. -/
structure DdrPort where
  cyc : Bool
  stb : Bool
  we : Bool
  addr : Word
  data : Word
  sel : BitVec 4
  deriving DecidableEq, Repr

variable (r : Regs) (i : In)

/-- The ports of `inst_svec_base_regs`. -/
def baseIn : SvecBaseRegs.In where
  rstN := i.rstSys62m5N
  wb := i.carrierWbIn
  metadataDataI := i.metadataData
  csrAppOffsetI := i.gAppOffset
  csrFmcPresenceI := i.fmcPresence
  csrDdrStatusCalibDoneI := i.ddrCalibDone
  csrPcbRevRevI := i.pcbrevI
  csrDdrAddrI := r.csrDdrAddr
  submapI := i.submapIn
  buildinfoDataI := i.buildinfoData
  undefined := i.undefined

/-- `ddr4_data_in` and `ddr5_data_in`. -/
def In.ddrDataIn (b : Bank) : WbMasterIn := i.submapIn (.ddrData b)

/-- `ddr4_data_out` and `ddr5_data_out`. -/
def ddrDataOut (b : Bank) : WbMasterOut := submapO r.base (baseIn r i) (.ddrData b)

/-- `ddr4_data_stb` and `ddr5_data_stb`. -/
def ddrDataStb (b : Bank) : Bool := (ddrDataOut r i b).stb && !r.ddrDataStbD b

/-- What goes to the controller of a bank. -/
def ddrPort (b : Bank) : DdrPort where
  cyc := (ddrDataOut r i b).cyc
  stb := ddrDataStb r i b
  we := (ddrDataOut r i b).we
  addr := r.csrDdrAddr b
  data := (ddrDataOut r i b).dat
  sel := (ddrDataOut r i b).sel

/-- `p_ddr4_addr` and `p_ddr5_addr`: the address. -/
def pDdrAddr (b : Bank) : Word :=
  if i.rstSys62m5N = false then 0#32
  else if csrDdrAddrWreq r.base b then csrDdrAddrO r.base
  else if (i.ddrDataIn b).ack then r.csrDdrAddr b + 4#32
  else r.csrDdrAddr b

/-- `carrier_wb_out`. -/
def carrierWbOut : WbMasterIn := wbO r.base (baseIn r i)

/-- The registers after a rising edge of `clk_sys_62m5`. -/
def step : Regs where
  base := SvecBaseRegs.step r.base (baseIn r i)
  csrDdrAddr := pDdrAddr r i
  ddrDataStbD := fun b => (ddrDataOut r i b).stb

end Svec.Hdl.SvecBaseWr
