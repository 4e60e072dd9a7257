/-
  Hdl/M25pFlash.lean --- the flash controller, `m25p_flash.vhd`.

  The controller reads blocks of bytes from an M25P flash through `spi_master`
  (not part of this repository, a parameter where the controller is used).  Host
  accesses through the FAR register share the SPI port: the two requests are
  or-ed together, and any FAR write aborts a running block read.
-/
import Svec.Sync.Machine
import Svec.Data.Bits

set_option autoImplicit false

namespace Svec.Hdl

open Svec.Data

/-- The input ports of `spi_master`. -/
structure SpiIn where
  rstN : Bool
  cs : Bool
  start : Bool
  data : Byte
  miso : Bool
  deriving DecidableEq, Repr, Inhabited

/-- The output ports of `spi_master`. -/
structure SpiOut where
  ready : Bool
  data : Byte
  csN : Bool
  sclk : Bool
  mosi : Bool
  deriving DecidableEq, Repr, Inhabited

/-- The FAR signals of the register block. -/
structure FarOut where
  dataLoad : Bool
  data : Byte
  xfer : Bool
  cs : Bool
  deriving DecidableEq, Repr, Inhabited

namespace M25pFlash

/-- `t_read_state`. -/
inductive State where
  | idle | csel | command | addr0 | addr1 | addr2 | dummyXfer | data
  deriving DecidableEq, Repr, Inhabited

/-- The registers of the controller. -/
structure Regs where
  state : State
  readyInt : Bool
  spiCs : Bool
  spiStart : Bool
  spiWdata : Byte
  spiStartHost : Bool
  spiWdataHost : Byte
  dataO : Byte
  deriving DecidableEq, Repr, Inhabited

/-- What the controller reads in a cycle: the FAR signals, the data readout interface and
the answer of `spi_master`. -/
structure In where
  rstN : Bool
  far : FarOut
  setAddr : Bool
  addr : BitVec 24
  read : Bool
  spiReady : Bool
  spiRdata : Byte
  deriving Repr, Inhabited

/-- `p_host_spi_registers`. -/
def pHostSpiRegisters (r : Regs) (i : In) : Bool × Byte :=
  if !i.rstN then (false, 0#8)
  else if i.far.dataLoad then (i.far.xfer, i.far.data)
  else (false, r.spiWdataHost)

/-- `p_main_fsm`. -/
def pMainFsm (r : Regs) (i : In) : Regs :=
  if !i.rstN then
    { r with state := .idle, spiStart := false, spiCs := false, spiWdata := 0#8, readyInt := true }
  else if i.far.dataLoad then
    { r with state := .idle, spiStart := false, spiCs := false, spiWdata := 0#8 }
  else match r.state with
  | .idle =>
    if i.setAddr then
      { r with spiCs := false, spiStart := true, readyInt := false, state := .csel }
    else if i.read then { r with spiStart := true, readyInt := false, state := .data }
    else { r with spiStart := false, readyInt := true }
  | .csel =>
    if i.spiReady then
      { r with state := .command, spiWdata := 0x0b#8, spiCs := true, spiStart := true }
    else { r with spiStart := false }
  | .command =>
    if i.spiReady then
      { r with state := .addr0, spiWdata := i.addr.extractLsb' 16 8, spiStart := true }
    else { r with spiStart := false }
  | .addr0 =>
    if i.spiReady then
      { r with state := .addr1, spiWdata := i.addr.extractLsb' 8 8, spiStart := true }
    else { r with spiStart := false }
  | .addr1 =>
    if i.spiReady then
      { r with state := .addr2, spiWdata := i.addr.extractLsb' 0 8, spiStart := true }
    else { r with spiStart := false }
  | .addr2 =>
    -- The source assigns "XXXXXXXX": the dummy byte has no meaning.
    if i.spiReady then { r with state := .dummyXfer, spiWdata := 0#8, spiStart := true }
    else { r with spiStart := false }
  | .dummyXfer =>
    { r with spiStart := false, state := if i.spiReady then .idle else .dummyXfer }
  | .data =>
    if i.spiReady then
      { r with spiStart := false, dataO := i.spiRdata, readyInt := true, state := .idle }
    else { r with spiStart := false, readyInt := false }

/-- One rising edge of `clk_sys_i`: the two processes drive disjoint registers. -/
def step (r : Regs) (i : In) : Regs :=
  { pMainFsm r i with
    spiStartHost := (pHostSpiRegisters r i).1, spiWdataHost := (pHostSpiRegisters r i).2 }

/-- `p_mux_spi_access`: what `spi_master` is given. -/
def spiIn (r : Regs) (rstN : Bool) (far : FarOut) (miso : Bool) : SpiIn where
  rstN := rstN
  cs := far.cs || r.spiCs
  data := r.spiWdataHost ||| r.spiWdata
  start := r.spiStartHost || r.spiStart
  miso := miso

/-- `ready_o`: the flag falls with the request. -/
def readyO (r : Regs) (setAddr read : Bool) : Bool := r.readyInt && !(setAddr || read)

end M25pFlash

end Svec.Hdl
