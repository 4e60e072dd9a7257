/-
  Hdl/Carrier.lean --- the register block in its surroundings, `svec_base_wr.vhd`.

  Two ROMs with registered outputs stand behind the metadata and the build
  information.  What the generics leave out is tied off: its submap acknowledges all
  the time.  The two bits of the reset register reset the application.
-/
import Svec.Hdl.SvecBaseWr
import Svec.Hdl.SvecBaseRom

set_option autoImplicit false

namespace Svec.Hdl.Carrier

open Svec.Data Svec.Hdl.SvecBaseRegs Svec.Hdl.SvecBaseRom

/-- What the design is generated from. -/
structure Design where
  generics : Generics
  gAppOffset : Word
  sourceid : BitVec 128
  buildinfo : List Byte

/-- The registers: those of the block and of the page access, and the outputs of the ROMs. -/
structure Regs where
  wr : SvecBaseWr.Regs
  metadataData : Word
  buildinfoData : Word

/-! ## What is left out -/

/-- `g_WITH_DDR4` and `g_WITH_DDR5`. -/
def gWithDdr (g : Generics) : Bank → Bool
  | .ddr4 => g.gWithDdr4
  | .ddr5 => g.gWithDdr5

/-- There is a slave behind the submap. -/
def present (g : Generics) : Submap → Bool
  | .thermId => g.gWithOnewire && !g.gWithWr
  | .fmcI2c => true
  | .flashSpi => g.gWithSpi
  | .vic => g.gWithVic
  | .wrcRegs => g.gWithWr
  | .ddrData b => gWithDdr g b

/-- What stands in for a slave that is left out. -/
def tiedOff : Submap → WbMasterIn
  | .ddrData _ => ⟨true, false, 0xffffffff#32⟩
  | _ => ⟨true, false, 0x00000000#32⟩

section Step

variable (d : Design) (r : Regs) (i : SvecBaseWr.In)

/-- What the design makes of the inputs. -/
def inputs : SvecBaseWr.In :=
  { i with
    metadataData := r.metadataData
    gAppOffset := d.gAppOffset
    ddrCalibDone := fun b => gWithDdr d.generics b && i.ddrCalibDone b
    buildinfoData := r.buildinfoData
    submapIn := fun m => if present d.generics m then i.submapIn m else tiedOff m }

/-- The registers of the block and of the pages; without its memory an address is 0. -/
def regs : SvecBaseWr.Regs :=
  { r.wr with csrDdrAddr := fun b => if gWithDdr d.generics b then r.wr.csrDdrAddr b else 0x00000000#32 }

/-- The ports of `inst_svec_base_regs`. -/
def blockIn : SvecBaseRegs.In := SvecBaseWr.baseIn (regs d r) (inputs d r i)

/-- `metadata_addr`. -/
def metadataAddr : BitVec 4 :=
  if metadataRe r.wr.base (blockIn d r i) then (blockIn d r i).wbAdr.extractLsb' 0 4
  else r.wr.base.wrAdrD0.extractLsb' 0 4

/-- `buildinfo_addr`. -/
def buildinfoAddr : BitVec 6 :=
  if buildinfoRe r.wr.base (blockIn d r i) then (blockIn d r i).wbAdr.extractLsb' 0 6
  else r.wr.base.wrAdrD0.extractLsb' 0 6

/-- The registers after a rising edge of `clk_sys_62m5`. -/
def step : Regs where
  wr := SvecBaseWr.step (regs d r) (inputs d r i)
  metadataData := pMetadata d.generics d.sourceid (metadataAddr d r i)
  buildinfoData := pBuildinfo d.buildinfo (buildinfoAddr d r i)

/-- `rst_csr_app_n`. -/
def rstCsrAppN : Bool := !(r.wr.base.csrResetsGlobalReg || r.wr.base.csrResetsApplReg)

/-- `rst_sys_62m5_n_o`. -/
def rstSys62m5NO : Bool := i.rstSys62m5N && rstCsrAppN r

/-- `rst_gbl_n`. -/
def rstGblN : Bool := i.rstSys62m5N && !r.wr.base.csrResetsGlobalReg

end Step

end Svec.Hdl.Carrier
