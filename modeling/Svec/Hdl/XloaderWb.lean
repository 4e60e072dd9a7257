/-
  Hdl/XloaderWb.lean --- the register block, `svec_xloader_wb.vhd`.

  The block has seven registers and the bitstream FIFO.  A Wishbone access is
  decoded in the first cycle of its strobe, acknowledged one or three cycles
  later, and holds the write pulses it made until then.

  Its process is reset asynchronously in the source; the reset of the design is
  released and asserted with the clock, so a cycle in reset looks the same here.
  Where the source returns 'X' the read data is 0.
-/
import Svec.Hdl.Fifo
import Svec.Hdl.MiniVme
import Svec.Hdl.M25pFlash

set_option autoImplicit false

namespace Svec.Hdl.XloaderWb

open Svec.Data

/-- `t_sxldr_in_registers`: what the block returns to the host. -/
structure RegsIn where
  csrDone : Bool
  csrError : Bool
  csrBusy : Bool
  farData : Byte
  farReady : Bool
  idr : Word
  fifoRdReq : Bool
  deriving DecidableEq, Repr, Inhabited

/-- The registers of the block. -/
structure Regs where
  ackSreg : BitVec 10
  ackInProgress : Bool
  rddataReg : Word
  csrStartInt : Bool
  csrMsbfInt : Bool
  csrSwrstInt : Bool
  csrExitInt : Bool
  csrClkdivInt : BitVec 6
  btrigrWr : Bool
  farDataLoad : Bool
  farXferInt : Bool
  farCsInt : Bool
  fifoClearBusInt : Bool
  fifoWrreqInt : Bool
  fifoInInt : FifoEntry
  csrStartDly0 : Bool
  csrStart : Bool
  csrSwrstDly0 : Bool
  csrSwrst : Bool
  csrExitDly0 : Bool
  csrExit : Bool
  deriving DecidableEq, Repr, Inhabited

/-- The FIFO's flags as the block reads them. -/
structure FifoFlags where
  full : Bool
  empty : Bool
  usedw : BitVec 8
  deriving DecidableEq, Repr, Inhabited

/-- Bits `start` and up of a register read, for the given fields. -/
def field {n : ℕ} (start : ℕ) (v : BitVec n) : Word := v.setWidth 32 <<< start

def flag (start : ℕ) (b : Bool) : Word := field start (BitVec.ofBool b)

/-- What a read of each register returns. -/
def readData (r : Regs) (f : FifoFlags) (regsI : RegsIn) (rwaddr : BitVec 3) : Word :=
  if rwaddr = 0#3 then
    flag 1 regsI.csrDone ||| flag 2 regsI.csrError ||| flag 3 regsI.csrBusy |||
      flag 4 r.csrMsbfInt ||| field 8 r.csrClkdivInt ||| field 14 3#8
  else if rwaddr = 2#3 then
    field 0 regsI.farData ||| flag 8 r.farXferInt ||| flag 9 regsI.farReady ||| flag 10 r.farCsInt
  else if rwaddr = 3#3 then regsI.idr
  else if rwaddr = 6#3 then field 0 f.usedw ||| flag 16 f.full ||| flag 17 f.empty
  else if rwaddr = 7#3 then r.rddataReg
  else 0#32

/-- What a write of each register does. -/
def writeReg (r : Regs) (rwaddr : BitVec 3) (w : Word) : Regs :=
  if rwaddr = 0#3 then
    { r with
      csrStartInt := w.getLsbD 0, csrMsbfInt := w.getLsbD 4, csrSwrstInt := w.getLsbD 5
      csrExitInt := w.getLsbD 6, csrClkdivInt := w.extractLsb' 8 6 }
  else if rwaddr = 1#3 then { r with btrigrWr := true }
  else if rwaddr = 2#3 then
    { r with farDataLoad := true, farXferInt := w.getLsbD 8, farCsInt := w.getLsbD 10 }
  else if rwaddr = 4#3 then
    { r with fifoInInt := { r.fifoInInt with xsize := w.extractLsb' 0 2, xlast := w.getLsbD 2 } }
  else if rwaddr = 5#3 then
    { r with fifoInInt := { r.fifoInInt with xdata := w }, fifoWrreqInt := true }
  else if rwaddr = 6#3 then
    if w.getLsbD 18 then { r with fifoClearBusInt := true } else r
  else r

/-- The bit of the acknowledge shift register that an access sets. -/
def ackSet (rwaddr : BitVec 3) : BitVec 10 := if rwaddr = 0#3 then 0x4#10 else 0x1#10

/-- The register bank process.  `wb` is the bus with the word address in `adr(2 downto 0)`. -/
def pRegisterBank (r : Regs) (wb : WbMasterOut) (f : FifoFlags) (regsI : RegsIn) : Regs :=
  let shifted := { r with ackSreg := r.ackSreg >>> 1 }
  if r.ackInProgress then
    if r.ackSreg.getLsbD 0 then
      { shifted with
        csrStartInt := false, csrSwrstInt := false, csrExitInt := false, btrigrWr := false
        farDataLoad := false, fifoWrreqInt := false, fifoClearBusInt := false
        ackInProgress := false }
    else { shifted with btrigrWr := false, farDataLoad := false }
  else if wb.cyc && wb.stb then
    let rwaddr := wb.adr.extractLsb' 0 3
    let r' := if wb.we then writeReg shifted rwaddr wb.dat else shifted
    { r' with
      rddataReg := readData r f regsI rwaddr
      ackSreg := shifted.ackSreg ||| ackSet rwaddr, ackInProgress := true }
  else shifted

/-- The three processes that make one-cycle pulses of CSR bits. -/
def pMonostable (int dly0 : Bool) : Bool := int && !dly0

/-- The registers after a reset. -/
def Regs.reset (r : Regs) : Regs :=
  { r with
    ackSreg := 0#10, ackInProgress := false, rddataReg := 0#32
    csrStartInt := false, csrMsbfInt := false, csrSwrstInt := false, csrExitInt := false
    csrClkdivInt := 0#6, btrigrWr := false, farDataLoad := false, farXferInt := false
    farCsInt := false, fifoClearBusInt := false, fifoWrreqInt := false
    csrStartDly0 := false, csrStart := false, csrSwrstDly0 := false, csrSwrst := false
    csrExitDly0 := false, csrExit := false }

/-- One rising edge of `clk_sys_i`. -/
def step (r : Regs) (rstN : Bool) (wb : WbMasterOut) (f : FifoFlags) (regsI : RegsIn) : Regs :=
  if !rstN then r.reset
  else
    { pRegisterBank r wb f regsI with
      csrStartDly0 := r.csrStartInt, csrStart := pMonostable r.csrStartInt r.csrStartDly0
      csrSwrstDly0 := r.csrSwrstInt, csrSwrst := pMonostable r.csrSwrstInt r.csrSwrstDly0
      csrExitDly0 := r.csrExitInt, csrExit := pMonostable r.csrExitInt r.csrExitDly0 }

/-- `wb_ack_o`. -/
def wbAck (r : Regs) : Bool := r.ackSreg.getLsbD 0

/-- `btrigr_o`: passed through from the bus. -/
def btrigr (wb : WbMasterOut) : Byte := wb.dat.extractLsb' 0 8

/-- The FAR signals for the flash controller. -/
def far (r : Regs) (wb : WbMasterOut) : FarOut :=
  ⟨r.farDataLoad, wb.dat.extractLsb' 0 8, r.farXferInt, r.farCsInt⟩

/-- The ports of `sxldr_fifo_INST`. -/
def fifoIn (r : Regs) (rstN rdReq : Bool) : FifoIn FifoEntry where
  rstN := rstN && !r.fifoClearBusInt
  rdReq := rdReq
  wrReq := r.fifoWrreqInt
  wrData := r.fifoInInt

end Svec.Hdl.XloaderWb
