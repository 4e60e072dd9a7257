/-
  Host/NorFlash.lean --- a card with a NOR flash, as the flasher sees it.

  The flash takes a command between two edges of its chip select.  Erasing a sector
  and programming a page want the write enable latch, which they clear, and they
  keep the flash busy for a number of status reads.  The card puts each byte on the
  SPI bus and is ready again after a number of looks at the access register.

  How long a transfer and an operation take is a parameter.
-/
import Svec.Host.FlashTool

set_option autoImplicit false

namespace Svec.Host.NorFlash

open Svec.Data Svec.Host Svec.Host.FlashTool

/-! ## Operations on the memory -/

/-- The supported chips. -/
inductive Model where
  | m25p128 | mt25ql128
  deriving DecidableEq, Repr, Inhabited

/-- The answer to `RDID`. -/
def Model.id : Model → Word
  | .m25p128 => idM25p128
  | .mt25ql128 => idMt25ql128

/-- The size of a sector. -/
def Model.sectorSize : Model → ℕ
  | .m25p128 => flashSectorSizeM25p128
  | .mt25ql128 => flashSectorSizeMt25ql128

/-- The contents of a flash. -/
abbrev Memory : Type := BitVec 24 → Byte

/-- What changes the memory. -/
inductive Op where
  | erase (a : BitVec 24)
  | program (a : BitVec 24) (data : List Byte)
  deriving DecidableEq, Repr

/-- The place of `x` in the data of a page program at `a`, which wraps within the page. -/
def slot (a x : BitVec 24) : ℕ := (x.toNat + flashPageSize - a.toNat % flashPageSize) % flashPageSize

/-- The bytes that an operation erases or programs. -/
def Op.Touches (m : Model) : Op → BitVec 24 → Prop
  | .erase a, x => x.toNat / m.sectorSize = a.toNat / m.sectorSize
  | .program a data, x => x.toNat / flashPageSize = a.toNat / flashPageSize ∧ slot a x < data.length

instance (m : Model) (op : Op) (x : BitVec 24) : Decidable (op.Touches m x) := by
  cases op <;> unfold Op.Touches <;> infer_instance

/-- An operation on the memory: erasing sets every bit, programming clears bits. -/
def Op.apply (m : Model) (op : Op) (mem : Memory) : Memory := fun x =>
  if op.Touches m x then
    match op with
    | .erase _ => 0xff#8
    | .program a data => mem x &&& data[slot a x]?.getD 0xff#8
  else mem x

/-! ## The flash -/

/-- How long things take: the looks at the access register until a transfer is over, and the
status reads until an operation is. -/
structure Timing where
  transfer : ℕ → ℕ
  /-- A transfer is over within a tenth of a second. -/
  transfer_le : ∀ k, transfer k ≤ 100000
  busy : ℕ → ℕ

/-- The state of the flash, with the operations that it has carried out. -/
structure Nor where
  mem : Memory
  wel : Bool
  busy : ℕ
  cs : Bool
  received : List Byte
  ops : List Op

/-- The flash carries out an operation. -/
def Nor.commit (m : Model) (T : Timing) (f : Nor) (op : Op) : Nor :=
  { f with mem := op.apply m f.mem, wel := false, busy := T.busy f.ops.length, ops := f.ops ++ [op] }

/-- The command that the flash has received takes effect when it is deselected. -/
def Nor.execute (m : Model) (T : Timing) (f : Nor) : Nor :=
  if f.busy ≠ 0 then f
  else match f.received with
  | [cmd] => if cmd = flashWren then { f with wel := true } else f
  | [cmd, a2, a1, a0] => if cmd = flashSe ∧ f.wel then f.commit m T (.erase (a2 ++ a1 ++ a0)) else f
  | cmd :: a2 :: a1 :: a0 :: data =>
    if cmd = flashPp ∧ f.wel ∧ data.length ≤ flashPageSize then f.commit m T (.program (a2 ++ a1 ++ a0) data)
    else f
  | _ => f

/-- The chip select. -/
def Nor.select (m : Model) (T : Timing) (f : Nor) (cs : Bool) : Nor :=
  if cs = f.cs then f
  else if cs then { f with cs := true }
  else { f.execute m T with cs := false, received := [] }

/-- The byte that the flash sends in the next transfer. -/
def Nor.answer (m : Model) (f : Nor) : Byte :=
  match f.received with
  | [] => 0xff#8
  | cmd :: args =>
    if cmd = flashRdsr then (if f.busy ≠ 0 then 0x01#8 else 0#8) ||| (if f.wel then 0x02#8 else 0#8)
    else if f.busy ≠ 0 then 0xff#8
    else if cmd = flashRdid then m.id.extractLsb' (8 * (2 - args.length)) 8
    else if cmd = flashRead then
      match args with
      | a2 :: a1 :: a0 :: rest => f.mem (a2 ++ a1 ++ a0 + BitVec.ofNat 24 rest.length)
      | _ => 0xff#8
    else 0xff#8

/-- A byte that the selected flash receives.  Each status read brings the end of the operation
nearer. -/
def Nor.receive (f : Nor) (b : Byte) : Nor :=
  { f with
    received := f.received ++ [b]
    busy := if f.received.head? = some flashRdsr then f.busy - 1 else f.busy }

/-! ## The card -/

/-- The flash, and the SPI master in front of it. -/
structure Card where
  nor : Nor
  wait : ℕ
  data : Byte
  transfers : ℕ

/-- A transfer.  A flash that is not selected takes no part in it. -/
def Card.transfer (m : Model) (T : Timing) (c : Card) (b : Byte) : Card where
  nor := if c.nor.cs then c.nor.receive b else c.nor
  wait := T.transfer c.transfers
  data := if c.nor.cs then c.nor.answer m else 0xff#8
  transfers := c.transfers + 1

/-- A write of the access register. -/
def Card.writeFar (m : Model) (T : Timing) (c : Card) (v : Word) : Card :=
  let c := { c with nor := c.nor.select m T (v.getLsbD 10) }
  if v.getLsbD 8 then c.transfer m T (v.setWidth 8) else c

/-- The access register. -/
def Card.far (c : Card) : Word :=
  c.data.setWidth 32 ||| (if c.wait = 0 then 0x200#32 else 0#32)

/-- Time passes. -/
def Card.delay (c : Card) (n : ℕ) : Card := { c with wait := c.wait - n }

/-- The card as a machine. -/
def flashCard (m : Model) (T : Timing) : Machine where
  State := Card
  busRead c a := if a = regFar then (c.far, c.delay 1) else (0#32, c)
  busWrite c v a := if a = regFar then c.writeFar m T v else c
  mdelay c ms := c.delay (1000 * ms)
  usleepRange c lo _ := c.delay lo
  getJiffies64 c := (0#64, c)
  usecsToJiffies us := us.setWidth 64

end Svec.Host.NorFlash
