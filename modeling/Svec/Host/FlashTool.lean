/-
  Host/FlashTool.lean --- programming the flash, `svec-flasher.c`.

  The flasher drives the SPI flash byte by byte through the flash access register:
  chip select, transfer, poll for READY.  On top of that stand the commands of the
  flash, the page loop of `flash_program` with its map of erased sectors, and
  `program_flash`, which writes the SDB header and then the bitstream.

  What the functions print is left out.
-/
import Svec.Prog.Basic
import Svec.Host.SvecFlasher

set_option autoImplicit false

namespace Svec.Host.FlashTool

open Svec.Data Svec.Host Svec.Prog
open Svec.Host.SvecCore (einval)
open Svec.Host.SvecFlasher (csrWritel csrReadl)

variable {M : Machine}

/-! ## Constants -/

/-- `ENOMEM`. -/
def enomem : Int := 12
/-- `ENODEV`. -/
def enodev : Int := 19

/-- `SXLDR_REG_FAR`. -/
def regFar : Word := 0x08#32
/-- `SXLDR_FAR_XFER`. -/
def farXfer : Word := 0x100#32
/-- `SXLDR_FAR_READY`, as a bit number. -/
def farReadyBit : ℕ := 9
/-- `SXLDR_FAR_CS`. -/
def farCs : Word := 0x400#32
/-- `SXLDR_FAR_DATA_W`. -/
def farDataW (b : Byte) : Word := b.setWidth 32
/-- `SXLDR_FAR_DATA_R`. -/
def farDataR (far : Word) : Byte := far.setWidth 8

/-- `BOOTLOADER_BITSTREAM_BASE`. -/
def bootloaderBitstreamBase : Word := 0x100000#32
/-- `BOOTLOADER_SDB_BASE`. -/
def bootloaderSdbBase : Word := 0x600000#32

/-- `ID_M25P128`. -/
def idM25p128 : Word := 0x202018#32
/-- `ID_MT25QL128`. -/
def idMt25ql128 : Word := 0x20ba18#32

/-- `FLASH_PAGE_SIZE`. -/
def flashPageSize : ℕ := 256
/-- `FLASH_SECTOR_SIZE_M25P128`. -/
def flashSectorSizeM25p128 : ℕ := 0x40000
/-- `FLASH_SECTOR_SIZE_MT25QL128`. -/
def flashSectorSizeMt25ql128 : ℕ := 0x10000
/-- `FLASH_SIZE`. -/
def flashSize : ℕ := 0x1000000

/-- `FLASH_WREN`. -/
def flashWren : Byte := 0x06#8
/-- `FLASH_RDID`. -/
def flashRdid : Byte := 0x9f#8
/-- `FLASH_RDSR`. -/
def flashRdsr : Byte := 0x05#8
/-- `FLASH_READ`. -/
def flashRead : Byte := 0x03#8
/-- `FLASH_PP`. -/
def flashPp : Byte := 0x02#8
/-- `FLASH_SE`. -/
def flashSe : Byte := 0xd8#8

/-- `sdb_header`. -/
def sdbHeader : List Byte :=
  [0x53#8, 0x44#8, 0x42#8, 0x2d#8, 0x00#8, 0x03#8, 0x01#8, 0x01#8, 0x00#8, 0x00#8, 0x00#8, 0x00#8,
    0x00#8, 0x60#8, 0x00#8, 0x00#8, 0x00#8, 0x00#8, 0x00#8, 0x00#8, 0x00#8, 0x60#8, 0x00#8, 0xc0#8,
    0x00#8, 0x00#8, 0x00#8, 0x00#8, 0x00#8, 0x00#8, 0xce#8, 0x42#8, 0x00#8, 0x00#8, 0x5f#8, 0xec#8,
    0x00#8, 0x00#8, 0x00#8, 0x01#8, 0x00#8, 0x00#8, 0x00#8, 0x00#8, 0x2e#8, 0x20#8, 0x20#8, 0x20#8,
    0x20#8, 0x20#8, 0x20#8, 0x20#8, 0x20#8, 0x20#8, 0x20#8, 0x20#8, 0x20#8, 0x20#8, 0x20#8, 0x20#8,
    0x20#8, 0x20#8, 0x20#8, 0x00#8, 0x00#8, 0x00#8, 0x00#8, 0x00#8, 0x00#8, 0x00#8, 0x00#8, 0x04#8,
    0x00#8, 0x00#8, 0x00#8, 0x00#8, 0x00#8, 0x10#8, 0x00#8, 0x00#8, 0x00#8, 0x00#8, 0x00#8, 0x00#8,
    0x00#8, 0x2c#8, 0x13#8, 0xe9#8, 0x46#8, 0x69#8, 0x6c#8, 0x65#8, 0x44#8, 0x61#8, 0x74#8, 0x61#8,
    0x61#8, 0x66#8, 0x70#8, 0x67#8, 0x00#8, 0x00#8, 0x00#8, 0x01#8, 0x00#8, 0x00#8, 0x00#8, 0x00#8,
    0x61#8, 0x66#8, 0x70#8, 0x67#8, 0x61#8, 0x2e#8, 0x62#8, 0x69#8, 0x6e#8, 0x20#8, 0x20#8, 0x20#8,
    0x20#8, 0x20#8, 0x20#8, 0x20#8, 0x20#8, 0x20#8, 0x20#8, 0x01#8, 0x00#8, 0x00#8, 0x00#8, 0x00#8,
    0x00#8, 0x00#8, 0x00#8, 0x04#8, 0x00#8, 0x00#8, 0x00#8, 0x00#8, 0x00#8, 0x00#8, 0x00#8, 0x00#8,
    0x00#8, 0x00#8, 0x00#8, 0x00#8, 0x00#8, 0x05#8, 0x33#8, 0x93#8, 0x46#8, 0x69#8, 0x6c#8, 0x65#8,
    0x44#8, 0x61#8, 0x74#8, 0x61#8, 0x62#8, 0x6f#8, 0x6f#8, 0x74#8, 0x00#8, 0x00#8, 0x00#8, 0x01#8,
    0x00#8, 0x00#8, 0x00#8, 0x00#8, 0x62#8, 0x6f#8, 0x6f#8, 0x74#8, 0x6c#8, 0x64#8, 0x72#8, 0x2e#8,
    0x62#8, 0x69#8, 0x6e#8, 0x20#8, 0x20#8, 0x20#8, 0x20#8, 0x20#8, 0x20#8, 0x20#8, 0x20#8, 0x01#8]

/-! ## The SPI master -/

/-- `csr_writel`. -/
def writel (data addr : Word) : Program (Proc M) Unit := act fun h => ((), csrWritel h data addr)

/-- `csr_readl`. -/
def readl (addr : Word) : Program (Proc M) Word := act fun h => csrReadl h addr

/-- `usleep`. -/
def usleep (us : ℕ) : Program (Proc M) Unit := act fun h => ((), h.usleepRange us us)

/-- `spi_test_presence`. -/
def spiTestPresence : Program (Proc M) Bool := do
  writel (farXfer ||| farDataW 0xff#8) regFar
  usleep 100000
  let far ← readl regFar
  return far.getLsbD farReadyBit

/-- `spi_cs`. -/
def spiCs (cs : Bool) : Program (Proc M) Unit := do
  writel (if cs then farCs else 0#32) regFar
  usleep 1

/-- A look at the access register. -/
def readyRound (_ : Unit) : Program (Proc M) (Unit ⊕ Word) := do
  let far ← readl regFar
  return if far.getLsbD farReadyBit then .inr far else .inl ()

/-- The poll for READY in `spi_read8` and `spi_write8`. -/
def awaitReady : Program (Proc M) Word := loop readyRound ()

/-- `spi_read8`. -/
def spiRead8 : Program (Proc M) Byte := do
  writel (farXfer ||| farDataW 0xff#8 ||| farCs) regFar
  let far ← awaitReady
  return farDataR far

/-- `spi_write8`. -/
def spiWrite8 (data : Byte) : Program (Proc M) Unit := do
  writel (farXfer ||| farDataW data ||| farCs) regFar
  let _ ← awaitReady

/-! ## The commands of the flash -/

/-- `(addr >> k) & 0xff`. -/
def addrByte (addr : Word) (k : ℕ) : Byte := (addr >>> k &&& 0xff#32).setWidth 8

/-- `flash_read_id`. -/
def flashReadId : Program (Proc M) Word := do
  spiCs false
  usleep 10
  spiCs true
  usleep 10
  spiCs true
  spiWrite8 flashRdid
  let b0 ← spiRead8
  let b1 ← spiRead8
  let b2 ← spiRead8
  spiCs false
  return b0.setWidth 32 <<< 16 + b1.setWidth 32 <<< 8 + b2.setWidth 32

/-- A round of `flash_wait_completion`. -/
def waitRound (notDone : Bool) : Program (Proc M) (Bool ⊕ Unit) :=
  if notDone then do
    spiCs true
    spiWrite8 flashRdsr
    let stat ← spiRead8
    spiCs false
    return .inl (stat &&& 0x01#8 ≠ 0#8)
  else return .inr ()

/-- `flash_wait_completion`. -/
def flashWaitCompletion : Program (Proc M) Unit := loop waitRound true

/-- `flash_erase_sector`. -/
def flashEraseSector (addr : Word) : Program (Proc M) Unit := do
  spiCs true
  spiWrite8 flashSe
  spiWrite8 (addrByte addr 16)
  spiWrite8 (addrByte addr 8)
  spiWrite8 (addrByte addr 0)
  spiCs false
  flashWaitCompletion

/-- `flash_write_enable`. -/
def flashWriteEnable : Program (Proc M) Unit := do
  spiCs true
  spiWrite8 flashWren
  spiCs false

/-- A round of the first loop of `flash_program_page`: the bytes that `data` points to. -/
def dataRound (data : ℕ → Byte) (size i : ℕ) : Program (Proc M) (ℕ ⊕ ℕ) :=
  if i < size then do
    spiWrite8 (data i)
    return .inl (i + 1)
  else return .inr i

/-- A round of the second loop: the page is filled up. -/
def fillRound (i : ℕ) : Program (Proc M) (ℕ ⊕ Unit) :=
  if i < flashPageSize then do
    spiWrite8 0xff#8
    return .inl (i + 1)
  else return .inr ()

/-- `flash_program_page`. -/
def flashProgramPage (addr : Word) (data : ℕ → Byte) (size : ℕ) : Program (Proc M) Unit := do
  spiCs true
  spiWrite8 flashPp
  spiWrite8 (addrByte addr 16)
  spiWrite8 (addrByte addr 8)
  spiWrite8 (addrByte addr 0)
  let i ← loop (dataRound data size) 0
  loop fillRound i
  spiCs false
  flashWaitCompletion

/-! ## Programming a range -/

/-- The sector size that `flash_program` goes by. -/
def sectorSizeOf (flashId : Word) : Option ℕ :=
  if flashId = idM25p128 then some flashSectorSizeM25p128
  else if flashId = idMt25ql128 then some flashSectorSizeMt25ql128
  else none

/-- The sector is erased before its first page. -/
def eraseOnce (erased : Bool) (addr : Word) : Program (Proc M) Unit :=
  if erased then return ()
  else do
    flashWriteEnable
    flashEraseSector addr

/-- A round of the page loop of `flash_program`.  It stops where the sector map ends. -/
def programRound (addr : Word) (data : Buffer) (size : Int) (sectorSize : ℕ) :
    ℕ × List Bool → Program (Proc M) ((ℕ × List Bool) ⊕ Unit)
  | (n, sectorMap) =>
    if (n : Int) < size then
      let plen := if size > flashPageSize then flashPageSize else size.toNat
      let page := addr + BitVec.ofNat 32 n
      let sector := page.toNat / sectorSize
      match sectorMap[sector]? with
      | none => stop
      | some erased => do
        eraseOnce erased page
        flashWriteEnable
        flashProgramPage page (fun i => data.byte (n + i)) plen
        return .inl (n + plen, sectorMap.set sector true)
    else return .inr ()

/-- A round of the verification of `flash_program`. -/
def verifyRound (data : Buffer) (size : Int) (n : ℕ) : Program (Proc M) (ℕ ⊕ Int) :=
  if (n : Int) < size then do
    let d ← spiRead8
    return if d ≠ data.byte n then .inr (-einval) else .inl (n + 1)
  else return .inr 0

/-- `flash_program`.  `malloc` says whether the sector map can be allocated. -/
def flashProgram (malloc : Bool) (addr : Word) (data : Buffer) (size : Int) (flashId : Word) :
    Program (Proc M) Int :=
  match sectorSizeOf flashId with
  | none => return -enodev
  | some sectorSize =>
    if !malloc then return -enomem
    else do
      loop (programRound addr data size sectorSize) (0, List.replicate (flashSize / sectorSize) false)
      spiCs true
      spiWrite8 flashRead
      spiWrite8 (addrByte addr 16)
      spiWrite8 (addrByte addr 8)
      spiWrite8 (addrByte addr 0)
      let ret ← loop (verifyRound data size) 0
      spiCs false
      return ret

/-- The conversion of a `size_t` to an `int`. -/
def toInt (size : ℕ) : Int := (BitVec.ofNat 32 size).toInt

/-- `program_flash`.  `malloc` says which allocations succeed, and `confirm` is the line that
the user types. -/
def programFlash (malloc : ℕ → Bool) (buf : Buffer) (size : ℕ) (programBoot : Bool)
    (confirm : String) : Program (Proc M) Int := do
  let present ← spiTestPresence
  if !present then return -1
  else
    let flashId ← flashReadId
    if flashId ≠ idM25p128 ∧ flashId ≠ idMt25ql128 then return -enodev
    else if programBoot then
      if !"yes".isPrefixOf confirm then return -1
      else flashProgram (malloc 0) 0#32 buf (toInt size) flashId
    else
      let ret ← flashProgram (malloc 0) bootloaderSdbBase ⟨sdbHeader, fun _ => 0#8⟩ sdbHeader.length flashId
      if ret = 0 then flashProgram (malloc 1) bootloaderBitstreamBase buf (toInt size) flashId
      else return ret

end Svec.Host.FlashTool
