/-
  Host/Metadata.lean --- the metadata of an FPGA as the host reads them.

  The driver copies the ROM word by word into a `struct svec_meta_id`
  (`svec_fpga_metadata_get` in `svec-core-fpga.c`), the version tool overlays the
  structure on the mapped ROM.  Where a member of the structure lies in the ROM
  follows from the members before it; where it should lie is said by `FPGA_META_*`
  in `svec.h`, and by the documentation.
-/
import Svec.Data.Memory
import Svec.Hdl.SvecBaseRom

set_option autoImplicit false

namespace Svec.Host.Metadata

open Svec.Data Svec.Hdl

/-- `ioread32be`. -/
def ioread32be (m : ByteMemory) (a : ℕ) : Word := load32 .big m a

/-- `ioread32`. -/
def ioread32 (m : ByteMemory) (a : ℕ) : Word := load32 .little m a

/-! ## The structure -/

/-- `struct svec_meta_id`. -/
@[ext]
structure SvecMetaId where
  vendor : Word
  device : Word
  version : Word
  bom : Word
  src : Fin 4 → Word
  cap : Word
  uuid : Fin 4 → Word

/-- A word of the structure. -/
inductive Member where
  | vendor | device | version | bom
  | src (k : Fin 4)
  | cap
  | uuid (k : Fin 4)
  deriving DecidableEq, Repr

def SvecMetaId.get (s : SvecMetaId) : Member → Word
  | .vendor => s.vendor
  | .device => s.device
  | .version => s.version
  | .bom => s.bom
  | .src k => s.src k
  | .cap => s.cap
  | .uuid k => s.uuid k

/-- Each word of the structure converted. -/
def SvecMetaId.map (g : Word → Word) (s : SvecMetaId) : SvecMetaId :=
  ⟨g s.vendor, g s.device, g s.version, g s.bom, fun k => g (s.src k), g s.cap, fun k => g (s.uuid k)⟩

theorem SvecMetaId.get_map (g : Word → Word) (s : SvecMetaId) (f : Member) :
    (s.map g).get f = g (s.get f) := by
  cases f <;> rfl

theorem SvecMetaId.ext_get {s t : SvecMetaId} (h : ∀ f, s.get f = t.get f) : s = t :=
  SvecMetaId.ext (h .vendor) (h .device) (h .version) (h .bom) (funext fun k => h (.src k)) (h .cap)
    (funext fun k => h (.uuid k))

/-- `offsetof`: the members lie one after the other. -/
def Member.offset : Member → ℕ
  | .vendor => 0x00
  | .device => 0x04
  | .version => 0x08
  | .bom => 0x0c
  | .src k => 0x10 + 4 * k
  | .cap => 0x20
  | .uuid k => 0x24 + 4 * k

/-- `sizeof(struct svec_meta_id)`. -/
def sizeofSvecMetaId : ℕ := 52

/-- `FPGA_META_*`. -/
def Member.fpgaMeta : Member → ℕ
  | .vendor => 0x00
  | .device => 0x04
  | .version => 0x08
  | .bom => 0x0c
  | .src k => 0x10 + 4 * k
  | .cap => 0x20
  | .uuid k => 0x30 + 4 * k

/-- The structure in memory, a cell for each of its words. -/
def SvecMetaId.ofCells (cell : ℕ → Word) : SvecMetaId :=
  ⟨cell 0, cell 1, cell 2, cell 3, fun k => cell (4 + k), cell 8, fun k => cell (9 + k)⟩

/-- The number of the cell of a member. -/
def Member.cell : Member → ℕ
  | .vendor => 0
  | .device => 1
  | .version => 2
  | .bom => 3
  | .src k => 4 + k
  | .cap => 8
  | .uuid k => 9 + k

theorem get_ofCells (cell : ℕ → Word) (f : Member) : (SvecMetaId.ofCells cell).get f = cell f.cell := by
  cases f <;> rfl

theorem Member.cell_offset (f : Member) : f.cell * 4 = f.offset := by
  cases f <;> simp only [Member.cell, Member.offset] <;> omega

theorem Member.cell_lt (f : Member) : f.cell < sizeofSvecMetaId / 4 := by
  cases f <;> simp only [Member.cell, sizeofSvecMetaId] <;> omega

/-! ## The two readers -/

/-- `svec_fpga_metadata_get`. -/
def svecFpgaMetadataGet (m : ByteMemory) (fpga : ℕ) (metaTmp : ℕ → Word) : SvecMetaId :=
  .ofCells (fillCells (sizeofSvecMetaId / 4) (fun i => ioread32be m (fpga + i * 4)) metaTmp)

/-- The structure that a host of the given byte order sees when it overlays it on the ROM. -/
def overlay (e : Endian) (m : ByteMemory) (rom : ℕ) : SvecMetaId := .ofCells fun i => load32 e m (rom + i * 4)

/-- The driver finds each member at its offset in the structure, whatever was in the structure
before. -/
theorem metadataGet_get (m : ByteMemory) (fpga : ℕ) (metaTmp : ℕ → Word) (f : Member) :
    (svecFpgaMetadataGet m fpga metaTmp).get f = ioread32be m (fpga + f.offset) := by
  rw [svecFpgaMetadataGet, get_ofCells, fillCells_of_lt _ _ f.cell_lt, f.cell_offset]

theorem overlay_get (e : Endian) (m : ByteMemory) (rom : ℕ) (f : Member) :
    (overlay e m rom).get f = load32 e m (rom + f.offset) := by
  rw [overlay, get_ofCells, f.cell_offset]

/-- In big-endian order the overlay is what the driver reads. -/
theorem fromBig_overlay (e : Endian) (m : ByteMemory) (rom : ℕ) (metaTmp : ℕ → Word) :
    (overlay e m rom).map (fromBig e) = svecFpgaMetadataGet m rom metaTmp := by
  refine SvecMetaId.ext_get fun f => ?_
  rw [SvecMetaId.get_map, overlay_get, metadataGet_get, fromBig_load32]
  rfl

/-! ## The documented offsets -/

/-- Each member is the word of the ROM at its documented offset. -/
def Documented (s : SvecMetaId) (m : ByteMemory) (rom : ℕ) : Prop :=
  ∀ f : Member, s.get f = ioread32be m (rom + f.fpgaMeta)

/-- The four words from 0x24 on are the four words from 0x30 on. -/
def UuidRepeats (m : ByteMemory) (rom : ℕ) : Prop :=
  ∀ k : Fin 4, ioread32be m (rom + (0x24 + 4 * k)) = ioread32be m (rom + (0x30 + 4 * k))

/-- Only the UUID is not where it should be. -/
theorem documented_iff {s : SvecMetaId} {m : ByteMemory} {rom : ℕ}
    (h : ∀ f : Member, s.get f = ioread32be m (rom + f.offset)) :
    Documented s m rom ↔ UuidRepeats m rom := by
  constructor
  · intro hdoc k
    exact (h (.uuid k)).symm.trans (hdoc (.uuid k))
  · intro hrep f
    cases f with
    | uuid k => exact (h (.uuid k)).trans (hrep k)
    | vendor | device | version | bom | src k | cap => exact h _

/-- The members of the driver's copy, and those of the tool's overlay, are the words at the
documented offsets exactly if the ROM has at 0x24 what it has at 0x30. -/
theorem members_documented_iff (e : Endian) (m : ByteMemory) (rom : ℕ) (metaTmp : ℕ → Word) :
    (Documented (svecFpgaMetadataGet m rom metaTmp) m rom ↔ UuidRepeats m rom) ∧
      (Documented ((overlay e m rom).map (fromBig e)) m rom ↔ UuidRepeats m rom) := by
  have hdriver := documented_iff (metadataGet_get m rom metaTmp)
  refine ⟨hdriver, ?_⟩
  rw [fromBig_overlay e m rom metaTmp]
  exact hdriver

/-- A ROM in which each word is its own number. -/
def countingRom : ByteMemory := wordsAt (BitVec.ofNat 32)

/-- The UUID of this ROM is 12 to 15, and is read as 9 to 12. -/
theorem uuid_misread :
    ¬ ∀ (e : Endian) (m : ByteMemory) (rom : ℕ) (metaTmp : ℕ → Word),
      Documented (svecFpgaMetadataGet m rom metaTmp) m rom ∧
        Documented ((overlay e m rom).map (fromBig e)) m rom := by
  intro hall
  have huuid := (hall .little countingRom 0 fun _ => 0#32).1 (.uuid 0)
  rw [metadataGet_get] at huuid
  exact absurd huuid (by decide)

/-- The ROM of the base has zeros there, so nothing is misread. -/
theorem base_documented {g : SvecBaseRom.Generics} {sourceid : BitVec 128} {m : ByteMemory} {rom : ℕ}
    (hrom : ∀ k < 16, ioread32be m (rom + 4 * k) = SvecBaseRom.pMetadata g sourceid (BitVec.ofNat 4 k))
    (metaTmp : ℕ → Word) : Documented (svecFpgaMetadataGet m rom metaTmp) m rom := by
  refine (documented_iff (metadataGet_get m rom metaTmp)).mpr fun k => ?_
  have hzero : ∀ j, 9 ≤ j → j < 16 → ioread32be m (rom + 4 * j) = 0#32 := by
    intro j hj hlt
    rw [hrom j hlt]
    refine SvecBaseRom.pMetadata_rest g sourceid ?_
    rw [BitVec.toNat_ofNat, Nat.mod_eq_of_lt hlt]
    exact hj
  rw [show 0x24 + 4 * (k : ℕ) = 4 * (9 + k) by omega, show 0x30 + 4 * (k : ℕ) = 4 * (12 + k) by omega]
  rw [hzero (9 + k) (by omega) (by omega), hzero (12 + k) (by omega) (by omega)]

end Svec.Host.Metadata
