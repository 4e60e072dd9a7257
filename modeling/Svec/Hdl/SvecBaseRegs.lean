/-
  Hdl/SvecBaseRegs.lean --- the carrier's register block, `svec_base_regs.vhd`.

  A Wishbone access is a request of one cycle to the place that its address names: a
  register answers at once, a submap is a Wishbone bus of its own and keeps its
  strobe up until it is acknowledged.  A write goes through one register before it
  is decoded, a read through one after.

  The submaps are alike, and so are the two banks; the source writes each of them out.
-/
import Svec.Hdl.MiniVme

set_option autoImplicit false

namespace Svec.Hdl

open Svec.Data

/-- The two memories of the card. -/
inductive Bank where
  | ddr4 | ddr5
  deriving DecidableEq, Repr, Inhabited

namespace SvecBaseRegs

/-! ## The address map -/

/-- The submaps with a Wishbone bus. -/
inductive Submap where
  | thermId | fmcI2c | flashSpi | vic | wrcRegs
  | ddrData (b : Bank)
  deriving DecidableEq, Repr

/-- What an address names. -/
inductive Place where
  | metadata | csrAppOffset | csrResets | csrFmcPresence | csrUnused0 | csrDdrStatus | csrPcbRev
  | csrDdrAddr (b : Bank)
  | submap (m : Submap)
  | buildinfo
  /-- Nothing; such an access is acknowledged. -/
  | others
  deriving DecidableEq, Repr

/-- The registers at 0x40. -/
def decodeCsr (adr : BitVec 4) : Place :=
  if adr = 0#4 then .csrAppOffset
  else if adr = 1#4 then .csrResets
  else if adr = 2#4 then .csrFmcPresence
  else if adr = 3#4 then .csrUnused0
  else if adr = 4#4 then .csrDdrStatus
  else if adr = 5#4 then .csrPcbRev
  else if adr = 6#4 then .csrDdrAddr .ddr4
  else if adr = 7#4 then .csrDdrAddr .ddr5
  else .others

/-- The case distinction on the bits 13 to 2 of an address, the same for reads and writes. -/
def decode (adr : BitVec 12) : Place :=
  if adr.extractLsb' 10 2 = 0#2 then
    if adr.extractLsb' 6 4 = 0#4 then
      if adr.extractLsb' 4 2 = 0#2 then .metadata
      else if adr.extractLsb' 4 2 = 1#2 then decodeCsr (adr.extractLsb' 0 4)
      else if adr.extractLsb' 4 2 = 2#2 then
        if adr.getLsbD 3 then .submap .fmcI2c else .submap .thermId
      else .submap .flashSpi
    else if adr.extractLsb' 6 4 = 1#4 then .submap .vic
    else if adr.extractLsb' 6 4 = 2#4 then .buildinfo
    else .others
  else if adr.extractLsb' 10 2 = 1#2 then .submap .wrcRegs
  else if adr.extractLsb' 10 2 = 2#2 then .submap (.ddrData .ddr4)
  else .submap (.ddrData .ddr5)

/-- How many address bits a submap gets. -/
def Submap.adrBits : Submap → ℕ
  | .thermId => 2
  | .fmcI2c => 3
  | .flashSpi => 3
  | .vic => 6
  | .wrcRegs => 9
  | .ddrData _ => 10

/-! ## Registers and ports -/

/-- The registers of the block. -/
structure Regs where
  wbRip : Bool
  wbWip : Bool
  rdAckInt : Bool
  wbDatO : Word
  wrReqD0 : Bool
  wrAdrD0 : BitVec 12
  wrDatD0 : Word
  wrSelD0 : BitVec 4
  metadataRack : Bool
  metadataWp : Bool
  csrResetsGlobalReg : Bool
  csrResetsApplReg : Bool
  csrResetsWack : Bool
  buildinfoRack : Bool
  buildinfoWp : Bool
  /-- A read of the submap is under way. -/
  rt : Submap → Bool
  /-- A write of the submap is under way. -/
  wt : Submap → Bool

/-- The inputs.  `wb` is the bus of the host, with a byte address. -/
structure In where
  rstN : Bool
  wb : WbMasterOut
  metadataDataI : Word
  csrAppOffsetI : Word
  csrFmcPresenceI : Word
  csrDdrStatusCalibDoneI : Bank → Bool
  csrPcbRevRevI : BitVec 5
  csrDdrAddrI : Bank → Word
  submapI : Submap → WbMasterIn
  buildinfoDataI : Word
  /-- What becomes of the source's 'X'. -/
  undefined : Word

variable (r : Regs) (i : In)

/-! ## Signals -/

/-- `wb_adr_i(13 downto 2)`. -/
def In.wbAdr : BitVec 12 := i.wb.adr.extractLsb' 2 12

def In.wbEn : Bool := i.wb.cyc && i.wb.stb

def rdReqInt : Bool := (i.wbEn && !i.wb.we) && !r.wbRip

def wrReqInt : Bool := (i.wbEn && i.wb.we) && !r.wbWip

def metadataWe : Bool := (r.wrReqD0 || r.metadataWp) && !rdReqInt r i

def buildinfoWe : Bool := (r.wrReqD0 || r.buildinfoWp) && !rdReqInt r i

def submapWack (m : Submap) : Bool := (i.submapI m).ack && r.wt m

def submapRack (m : Submap) : Bool := (i.submapI m).ack && r.rt m

/-! ### The process for write requests -/

def wrAckInt : Bool :=
  match decode r.wrAdrD0 with
  | .metadata => metadataWe r i
  | .csrResets => r.csrResetsWack
  | .submap m => submapWack r i m
  | .buildinfo => buildinfoWe r i
  | _ => r.wrReqD0

def csrResetsWreq : Bool := decode r.wrAdrD0 = .csrResets && r.wrReqD0

def csrDdrAddrWreq (b : Bank) : Bool := decode r.wrAdrD0 = .csrDdrAddr b && r.wrReqD0

def submapWe (m : Submap) : Bool := decode r.wrAdrD0 = .submap m && r.wrReqD0

/-! ### The process for read requests -/

def rdAckD0 : Bool :=
  match decode i.wbAdr with
  | .metadata => r.metadataRack
  | .submap m => submapRack r i m
  | .buildinfo => r.buildinfoRack
  | _ => rdReqInt r i

def rdDatD0 : Word :=
  match decode i.wbAdr with
  | .metadata => i.metadataDataI
  | .csrAppOffset => i.csrAppOffsetI
  | .csrResets =>
    (BitVec.ofBool r.csrResetsApplReg ++ BitVec.ofBool r.csrResetsGlobalReg).setWidth 32
  | .csrFmcPresence => i.csrFmcPresenceI
  | .csrUnused0 => 0#32
  | .csrDdrStatus =>
    (BitVec.ofBool (i.csrDdrStatusCalibDoneI .ddr5) ++
      BitVec.ofBool (i.csrDdrStatusCalibDoneI .ddr4)).setWidth 32
  | .csrPcbRev => i.csrPcbRevRevI.setWidth 32
  | .csrDdrAddr b => i.csrDdrAddrI b
  | .submap m => (i.submapI m).dat
  | .buildinfo => i.buildinfoDataI
  | .others => i.undefined

def metadataRe : Bool := decode i.wbAdr = .metadata && rdReqInt r i

def buildinfoRe : Bool := decode i.wbAdr = .buildinfo && rdReqInt r i

def submapRe (m : Submap) : Bool := decode i.wbAdr = .submap m && rdReqInt r i

/-! ## Outputs -/

/-- `ack_int` and `wb_ack_o`. -/
def ackInt : Bool := r.rdAckInt || wrAckInt r i

def wbStallO : Bool := !ackInt r i && i.wbEn

/-- What the host gets. -/
def wbO : WbMasterIn := ⟨ackInt r i, wbStallO r i, r.wbDatO⟩

/-- The bus of a submap. -/
def submapO (m : Submap) : WbMasterOut where
  cyc := r.wt m || r.rt m
  stb := r.wt m || r.rt m
  adr := ((i.wbAdr.setWidth m.adrBits).setWidth 32) <<< 2
  sel := r.wrSelD0
  we := r.wt m
  dat := r.wrDatD0

/-- `csr_ddr4_addr_o` and `csr_ddr5_addr_o`. -/
def csrDdrAddrO : Word := r.wrDatD0

/-! ## The clocked processes -/

/-- The registers after a clock edge in reset; those that carry data are not reset. -/
def Regs.reset : Regs :=
  { r with
    wbRip := false, wbWip := false, rdAckInt := false, wrReqD0 := false, metadataRack := false
    metadataWp := false, csrResetsGlobalReg := false, csrResetsApplReg := false
    csrResetsWack := false, buildinfoRack := false, buildinfoWp := false
    rt := fun _ => false, wt := fun _ => false }

/-- The registers after a rising edge of `clk_i`. -/
def step : Regs :=
  if i.rstN = false then r.reset
  else
    { wbRip := (r.wbRip || (i.wbEn && !i.wb.we)) && !r.rdAckInt
      wbWip := (r.wbWip || (i.wbEn && i.wb.we)) && !wrAckInt r i
      rdAckInt := rdAckD0 r i
      wbDatO := rdDatD0 r i
      wrReqD0 := wrReqInt r i
      wrAdrD0 := i.wbAdr
      wrDatD0 := i.wb.dat
      wrSelD0 := i.wb.sel
      metadataRack := metadataRe r i && !r.metadataRack
      metadataWp := (r.wrReqD0 || r.metadataWp) && rdReqInt r i
      csrResetsGlobalReg :=
        if csrResetsWreq r then r.wrDatD0.getLsbD 0 else r.csrResetsGlobalReg
      csrResetsApplReg := if csrResetsWreq r then r.wrDatD0.getLsbD 1 else r.csrResetsApplReg
      csrResetsWack := csrResetsWreq r
      buildinfoRack := buildinfoRe r i && !r.buildinfoRack
      buildinfoWp := (r.wrReqD0 || r.buildinfoWp) && rdReqInt r i
      rt := fun m => (r.rt m || submapRe r i m) && !submapRack r i m
      wt := fun m => (r.wt m || submapWe r m) && !submapWack r i m }

end SvecBaseRegs

end Svec.Hdl
