/-
  Hdl/Fifo.lean --- the bitstream FIFO and its entries.

  An entry is what one write of `FIFO_R1` pushes: the data word together with the
  size and last flags of the preceding write of `FIFO_R0`.  The FIFO itself,
  `wbgen2_fifo_sync`, is a library core that is not part of this repository; the
  structure below is the contract the register block and the loader rely on, and
  every result about them is proved for each FIFO that meets it.
-/
import Svec.Data.Bits

set_option autoImplicit false

namespace Svec.Hdl

open Svec.Data

/-- One FIFO entry: the fields `XSIZE`, `XLAST` of `FIFO_R0` and `XDATA` of `FIFO_R1`. -/
structure FifoEntry where
  xsize : BitVec 2
  xlast : Bool
  xdata : Word
  deriving DecidableEq, Repr, Inhabited

/-- The bytes an entry stands for: the first `XSIZE + 1` of its data word, taken from the
most significant end (`MSBF = 1`) or from the least significant end. -/
def FifoEntry.bytes (msbf : Bool) (e : FifoEntry) : List Byte :=
  (if msbf then beBytes e.xdata else leBytes e.xdata).take (e.xsize.toNat + 1)

theorem FifoEntry.length_bytes (msbf : Bool) (e : FifoEntry) :
    (e.bytes msbf).length = e.xsize.toNat + 1 := by
  have := e.xsize.isLt
  unfold FifoEntry.bytes
  cases msbf <;> simp <;> omega

/-- The bits an entry stands for, most significant bit of each byte first. -/
def FifoEntry.bits (msbf : Bool) (e : FifoEntry) : List Bool := (e.bytes msbf).flatMap byteBits

/-- The synchronous ports of the FIFO in one cycle; `rstN` low clears it. -/
structure FifoIn (α : Type) where
  rstN : Bool
  rdReq : Bool
  wrReq : Bool
  wrData : α

/-- A lossless first-in first-out queue of `size` words with a registered read port: a
word read in one cycle is on `rd_data_o` from the next one until the next read. -/
structure FifoSync (α : Type) (size : ℕ) where
  State : Type
  step : State → FifoIn α → State
  rdData : State → α
  rdEmpty : State → Bool
  wrFull : State → Bool
  /-- The stored words, oldest first. -/
  contents : State → List α
  rdEmpty_eq : ∀ s, rdEmpty s = (contents s).isEmpty
  wrFull_eq : ∀ s, wrFull s = decide (size ≤ (contents s).length)
  contents_clear : ∀ s i, i.rstN = false → contents (step s i) = []
  contents_step : ∀ s i, i.rstN = true → contents (step s i) =
    (if i.rdReq then (contents s).tail else contents s) ++
      (if i.wrReq && !wrFull s then [i.wrData] else [])
  rdData_read : ∀ s i a q, i.rstN = true → i.rdReq = true → contents s = a :: q →
    rdData (step s i) = a
  rdData_hold : ∀ s i, i.rdReq = false → rdData (step s i) = rdData s

/-- The contract is met by a list with an output register. -/
def listFifo (α : Type) (size : ℕ) (init : α) : FifoSync α size where
  State := List α × α
  step s i :=
    (if i.rstN then
        (if i.rdReq then s.1.tail else s.1) ++
          (if i.wrReq && !decide (size ≤ s.1.length) then [i.wrData] else [])
      else [],
     if i.rdReq then s.1.headD init else s.2)
  rdData s := s.2
  rdEmpty s := s.1.isEmpty
  wrFull s := decide (size ≤ s.1.length)
  contents s := s.1
  rdEmpty_eq _ := rfl
  wrFull_eq _ := rfl
  contents_clear s i h := by simp [h]
  contents_step s i h := by simp [h]
  rdData_read s i a q h hr hc := by simp [hr, hc]
  rdData_hold s i h := by simp [h]

end Svec.Hdl
