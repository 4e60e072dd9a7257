/-
  Hdl/FlashBoot.lean --- booting from the flash, `flash_boot.vhd`.

  The engine looks for the signature of an SDB filesystem, starts the loader and
  feeds it the bitstream file byte by byte.  The flash controller below it
  (`m25p_flash.vhd`) enters as `flashReady` and `flashData`.
-/
import Svec.Sync.Machine
import Svec.Data.Bits

set_option autoImplicit false

namespace Svec.Hdl.FlashBoot

open Svec.Data

/-- `c_SDB_SIGNATURE`. -/
def cSdbSignature : ℕ → Byte
  | 0 => 0x53#8
  | 1 => 0x44#8
  | 2 => 0x42#8
  | _ => 0x2d#8

/-- `c_SDB_ROOT_OFFSET`. -/
def cSdbRootOffset : BitVec 24 := 0x600000#24

/-- `c_SDB_BITSTREAM_OFFSET`. -/
def cSdbBitstreamOffset : BitVec 24 := 0x100000#24

/-- `c_BITSTREAM_SIZE`. -/
def cBitstreamSize : BitVec 24 := 0x408000#24

/-- `t_boot_state`. -/
inductive State where
  | startup | selectSdb | waitSelectSdb | checkSig0 | checkSig1 | checkSig2 | checkSig3
  | selectBitstream | waitSelectBitstream | fetchBsByte | loadBsByte | noBitstream | bootDone
  deriving DecidableEq, Repr, Inhabited

/-- The registers of the engine, output registers included.  `xldr_data_o(31 downto 8)` is
never driven and is left out. -/
structure Regs where
  state : State
  flashSetAddr : Bool
  flashAddr : BitVec 24
  flashRead : Bool
  byteCount : BitVec 24
  xldrStart : Bool
  xldrData : Byte
  xldrDsize : BitVec 2
  xldrDlast : Bool
  xldrEmpty : Bool
  noBitstreamInt : Bool
  noBitstreamIntD0 : Bool
  noBitstreamP1 : Bool
  deriving DecidableEq, Repr, Inhabited

/-- What the engine reads in a cycle. -/
structure In where
  rstN : Bool
  enable : Bool
  xldrDone : Bool
  xldrRd : Bool
  flashReady : Bool
  flashData : Byte
  deriving Repr, Inhabited

/-- `f_check_signature`. -/
def fCheckSignature (r : Regs) (i : In) (byteId : ℕ) (nextState : State) (readNext : Bool) : Regs :=
  if i.flashReady then
    { r with
      state := if i.flashData = cSdbSignature byteId then nextState else .noBitstream
      flashRead := readNext }
  else { r with flashRead := false }

/-- The main process. -/
def pMain (r : Regs) (i : In) : Regs :=
  if !i.rstN || !i.enable then
    { r with
      state := .startup, flashSetAddr := false, flashRead := false, xldrStart := false
      xldrEmpty := true, noBitstreamInt := false }
  else match r.state with
  | .startup => { r with state := .selectSdb, byteCount := 0#24 }
  | .selectSdb =>
    { r with flashSetAddr := true, flashAddr := cSdbRootOffset, state := .waitSelectSdb }
  | .waitSelectSdb =>
    if i.flashReady then { r with flashRead := true, state := .checkSig0 }
    else { r with flashSetAddr := false }
  | .checkSig0 => fCheckSignature r i 0 .checkSig1 true
  | .checkSig1 => fCheckSignature r i 1 .checkSig2 true
  | .checkSig2 => fCheckSignature r i 2 .checkSig3 true
  | .checkSig3 => fCheckSignature r i 3 .selectBitstream false
  | .selectBitstream =>
    { r with
      xldrStart := true, flashSetAddr := true, flashAddr := cSdbBitstreamOffset
      state := .waitSelectBitstream }
  | .waitSelectBitstream =>
    let r' := { r with xldrStart := false, flashSetAddr := false }
    if i.flashReady then { r' with state := .fetchBsByte, flashRead := true }
    else { r' with flashRead := false }
  | .fetchBsByte =>
    if i.flashReady then
      { r with
        xldrEmpty := false, xldrData := i.flashData, xldrDsize := 0#2, xldrDlast := false
        state := .loadBsByte }
    else { r with flashRead := false }
  | .loadBsByte =>
    if i.xldrRd then
      { r with
        flashRead := true, xldrEmpty := true
        state :=
          if i.xldrDone then .bootDone
          else if r.byteCount = cBitstreamSize then .noBitstream else .fetchBsByte
        byteCount := r.byteCount + 1#24 }
    else { r with flashRead := false }
  | .noBitstream => { r with flashRead := false, noBitstreamInt := true }
  | .bootDone => { r with flashRead := false }

/-- One rising edge of `clk_sys_i`, `p_gen_no_bitstream_pulse` included. -/
def step (r : Regs) (i : In) : Regs :=
  { pMain r i with
    noBitstreamIntD0 := i.rstN && r.noBitstreamInt
    noBitstreamP1 := i.rstN && (r.noBitstreamInt && !r.noBitstreamIntD0) }

/-- `xldr_data_o`. -/
def xldrDataO (r : Regs) : Word := 0#24 ++ r.xldrData

/-- `xldr_clk_div_o`. -/
def xldrClkDiv : BitVec 7 := 1#7

end Svec.Hdl.FlashBoot
