/-
  Host/SvecCore.lean --- the FPGA manager of the kernel driver, `svec-core.c`.

  The driver does not know which word of a bitstream is the last one until
  `write_complete`, so it writes every word one call late: `svec_dev` holds the
  last word it was given and its size.  A size of -1 (0xffffffff in the unsigned
  field) says that there is none; `svec_fpga_write_word` refuses it with -EINVAL,
  and its callers tolerate that.

  Each function is given with what it pushes into the FIFO.
-/
import Svec.Host.Bus

set_option autoImplicit false

namespace Svec.Host.SvecCore

open Svec.Data Svec.Hdl Svec.Host

/-! ## The functions -/

/-- `EIO`. -/
def eio : Int := 5
/-- `ENXIO`. -/
def enxio : Int := 6
/-- `EBUSY`. -/
def ebusy : Int := 16
/-- `EINVAL`. -/
def einval : Int := 22

/-- The fields of `struct svec_dev` that the FPGA manager keeps between calls. -/
structure SvecDev where
  bitstreamLastWord : Word
  bitstreamLastWordSize : Word
  deriving DecidableEq, Repr

/-- The fields with which a bitstream begins: nothing pending. -/
def SvecDev.cleared : SvecDev := ⟨0xffffffff#32, 0xffffffff#32⟩

/-- `struct fpga_image_info`, as far as it is used. -/
structure FpgaImageInfo where
  configCompleteTimeoutUs : BitVec 32

variable {M : Machine}

/-- The poll of `svec_fpga_write_word`: one read, and up to `try` more while the FIFO is
full. -/
def pollFifoCsr (h : Proc M) : ℕ → Word × Proc M
  | 0 => h.read regFifoCsr
  | tries + 1 =>
    if (h.read regFifoCsr).1.getLsbD fifoCsrFullBit then
      pollFifoCsr (h.read regFifoCsr).2 tries
    else h.read regFifoCsr

/-- `svec_fpga_write_word`. -/
def svecFpgaWriteWord (h : Proc M) (word : Word) (size : Int) (isLast : Bool) : Int × Proc M :=
  if size ≤ 0 ∨ 5 ≤ size then (-einval, h)
  else
    let xldrFifoR0 := (BitVec.ofInt 32 (size - 1) &&& 0x3#32) ||| (if isLast then fifoR0Xlast else 0#32)
    let xldrFifoR1 := htonl word
    let poll := pollFifoCsr h 10000
    if poll.1.getLsbD fifoCsrFullBit then (-ebusy, poll.2)
    else (0, (poll.2.write xldrFifoR0 regFifoR0).write xldrFifoR1 regFifoR1)

/-- `boot_unlock_sequence`. -/
def bootUnlockSequence : List Word :=
  [0xde#32, 0xad#32, 0xbe#32, 0xef#32, 0xca#32, 0xfe#32, 0xba#32, 0xbe#32]

/-- `svec_fpga_reset`. -/
def svecFpgaReset (h : Proc M) : Int × Proc M :=
  (0, bootUnlockSequence.foldl (fun h b => (h.write b regBtrigr).mdelay 1) h)

/-- `svec_fpga_loader_is_active`: the bytes of the identification register, in the order
`strncmp` sees them, are "SVEC". -/
def svecFpgaLoaderIsActive (h : Proc M) : Bool × Proc M :=
  let h := (h.read regCsr).2
  let idc := h.read regIdr
  (leBytes (htonl idc.1) = [0x53#8, 0x56#8, 0x45#8, 0x43#8], idc.2)

/-- `svec_fpga_write_start`. -/
def svecFpgaWriteStart (h : Proc M) : Int × Proc M :=
  let reset := svecFpgaReset h
  if reset.1 ≠ 0 then reset
  else
    let active := svecFpgaLoaderIsActive reset.2
    if !active.1 then (-enxio, active.2)
    else (0, (active.2.write csrSwrst regCsr).write (csrStart ||| csrMsbf) regCsr)

/-- The wait of `svec_fpga_write_stop`: the last status read, and whether the loop ended
within the given number of rounds. -/
def waitDone (h : Proc M) (timeout : BitVec 64) (rval : Word) : ℕ → (Bool × Word) × Proc M
  | 0 => ((false, rval), h)
  | rounds + 1 =>
    let now := h.getJiffies64
    if (now.1 - timeout).msb then
      let csr := now.2.read regCsr
      if csr.1.getLsbD csrDoneBit then ((true, csr.1), csr.2)
      else waitDone (csr.2.usleepRange 900 1100) timeout csr.1 rounds
    else ((true, rval), now.2)

/-- The time `svec_fpga_write_stop` gives the loader: what the caller asks for, or 100 us. -/
def configTimeout (M : Machine) (info : FpgaImageInfo) : BitVec 64 :=
  if info.configCompleteTimeoutUs ≠ 0#32 then M.usecsToJiffies info.configCompleteTimeoutUs
  else M.usecsToJiffies 100#32

/-- `svec_fpga_write_stop`; no result where the status loop has not ended yet. -/
def svecFpgaWriteStop (rounds : ℕ) (info : FpgaImageInfo) (dev : SvecDev) (h : Proc M) :
    Option Int × SvecDev × Proc M :=
  let word := svecFpgaWriteWord h dev.bitstreamLastWord (dev.bitstreamLastWordSize.toNat : Int) true
  let exit := fun h : Proc M => (h.write csrExit regCsr).usleepRange 10000 20000
  if word.1 ≠ 0 ∧ word.1 ≠ -einval then (some word.1, dev, exit word.2)
  else
    let now := word.2.getJiffies64
    let wait := waitDone now.2 (now.1 + configTimeout M info) 0#32 rounds
    if !wait.1.1 then (none, .cleared, wait.2)
    else
      let err := if wait.1.2.getLsbD csrDoneBit then 0 else -eio
      let err := if wait.1.2.getLsbD csrErrorBit then -einval else err
      (some err, .cleared, exit wait.2)

/-- The loop of `svec_fpga_write_buf` from offset `i`.  `i` is an `int`: at 2^31 it turns
negative, which the comparison with the `size_t` size reads as a huge offset. -/
def writeBufLoop (buf : Buffer) (dev : SvecDev) (h : Proc M) (i : ℕ) : Int × SvecDev × Proc M :=
  if i < 2 ^ 31 ∧ i < buf.bytes.length then
    let word := svecFpgaWriteWord h dev.bitstreamLastWord (dev.bitstreamLastWordSize.toNat : Int) false
    if word.1 ≠ 0 ∧ ¬ (word.1 = -einval ∧ i = 0) then (word.1, dev, word.2)
    else
      let n := if buf.bytes.length - i > 4 then 4 else buf.bytes.length - i
      writeBufLoop buf ⟨buf.load (4 * (i >>> 2)), BitVec.ofNat 32 n⟩ word.2 (i + n)
  else (0, dev, h)
termination_by buf.bytes.length - i
decreasing_by split <;> omega

/-- `svec_fpga_write_buf`. -/
def svecFpgaWriteBuf (dev : SvecDev) (h : Proc M) (buf : Buffer) : Int × SvecDev × Proc M :=
  writeBufLoop buf dev h 0

/-- `svec_fpga_write_init`. -/
def svecFpgaWriteInit (h : Proc M) : Int × SvecDev × Proc M :=
  ((svecFpgaWriteStart h).1, .cleared, (svecFpgaWriteStart h).2)

/-- `svec_fpga_write`. -/
def svecFpgaWrite (dev : SvecDev) (h : Proc M) (buf : Buffer) : Int × SvecDev × Proc M :=
  svecFpgaWriteBuf dev h buf

/-- `svec_fpga_write_complete`. -/
def svecFpgaWriteComplete (rounds : ℕ) (info : FpgaImageInfo) (dev : SvecDev) (h : Proc M) :
    Option Int × SvecDev × Proc M :=
  svecFpgaWriteStop rounds info dev h

end Svec.Host.SvecCore
