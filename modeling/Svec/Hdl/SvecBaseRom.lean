/-
  Hdl/SvecBaseRom.lean --- the two ROMs in `svec_base_wr.vhd`.

  The metadata tell the host what the FPGA is; the build information is a string,
  four characters a word.
-/
import Svec.Data.Bits

set_option autoImplicit false

namespace Svec.Hdl.SvecBaseRom

open Svec.Data

/-- The generics that `p_metadata` looks at. -/
structure Generics where
  gWithVic : Bool
  gWithOnewire : Bool
  gWithSpi : Bool
  gWithWr : Bool
  gWithDdr4 : Bool
  gWithDdr5 : Bool

/-- `p_metadata`: what `metadata_data` becomes at a rising edge. -/
def pMetadata (g : Generics) (sourceid : BitVec 128) (metadataAddr : BitVec 4) : Word :=
  match metadataAddr.toNat with
  | 0x0 => 0x000010dc#32
  | 0x1 => 0x53564543#32
  | 0x2 => 0x03000000#32
  | 0x3 => 0xfffe0000#32
  | 0x4 => sourceid.extractLsb' 96 32
  | 0x5 => sourceid.extractLsb' 64 32
  | 0x6 => sourceid.extractLsb' 32 32
  | 0x7 => sourceid.extractLsb' 0 32
  | 0x8 => (BitVec.ofBoolListLE [g.gWithVic, g.gWithOnewire && !g.gWithWr, g.gWithSpi, g.gWithWr,
      -- The build information is always there.
      true, g.gWithDdr4, g.gWithDdr5]).setWidth 32
  | _ => 0x00000000#32

/-- The rest of the metadata is zero. -/
theorem pMetadata_rest (g : Generics) (sourceid : BitVec 128) {a : BitVec 4} (h : 9 ≤ a.toNat) :
    pMetadata g sourceid a = 0#32 := by
  unfold pMetadata
  split
  case h_10 => rfl
  all_goals
    rename_i ha
    rw [ha] at h
    exact absurd h (by decide)

/-- The byte `b` of the loop in `p_buildinfo`. -/
def buildinfoByte (buildinfo : List Byte) (n : ℕ) : Byte :=
  if h : n < buildinfo.length then buildinfo.get ⟨n, h⟩ else 0x00#8

/-- `p_buildinfo`: what `buildinfo_data` becomes at a rising edge.  A character is its
position, and the first one is in the least significant byte. -/
def pBuildinfo (buildinfo : List Byte) (buildinfoAddr : BitVec 6) : Word :=
  let addr := buildinfoAddr.toNat * 4
  ofBytes (buildinfoByte buildinfo (addr + 3)) (buildinfoByte buildinfo (addr + 2))
    (buildinfoByte buildinfo (addr + 1)) (buildinfoByte buildinfo (addr + 0))

theorem buildinfoByte_eq_getD (buildinfo : List Byte) (n : ℕ) :
    buildinfoByte buildinfo n = buildinfo.getD n 0#8 := by
  unfold buildinfoByte
  rw [List.getD_eq_getElem?_getD]
  split
  · rename_i h
    rw [List.getElem?_eq_getElem h]
    rfl
  · rename_i h
    rw [List.getElem?_eq_none (Nat.le_of_not_lt h)]
    rfl

/-- Four characters of the string, the first in the least significant byte. -/
theorem leBytes_pBuildinfo (buildinfo : List Byte) (a : BitVec 6) :
    leBytes (pBuildinfo buildinfo a) =
      (List.range' (a.toNat * 4) 4).map fun n => buildinfo.getD n 0#8 := by
  simp only [pBuildinfo, buildinfoByte_eq_getD]
  rw [← beBytes_byteSwap, beBytes_byteSwap_ofBytes]
  rfl

end Svec.Hdl.SvecBaseRom
