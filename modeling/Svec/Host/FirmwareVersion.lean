/-
  Host/FirmwareVersion.lean --- what `svec-firmware-version` prints.

  The tool maps the FPGA into its memory, overlays `struct svec_meta_id` on the
  metadata of the base and of the application, and prints the members on one line or
  on several.  The registers are big-endian; the host that is modelled here is
  little-endian, so a member has to be swapped before it means anything.
-/
import Svec.Data.Text
import Svec.Host.Metadata
import Svec.Host.SvecCoreFpga

set_option autoImplicit false

namespace Svec.Host.FirmwareVersion

open Svec.Data Svec.Host.Metadata
open Svec.Host.SvecCoreFpga (svecMetaVendorId svecMetaDeviceId svecMetaBomBe svecMetaBomEndMask)

/-! ## The members -/

/-- `bom_to_str`. -/
def bomToStr (bom : Word) : Text :=
  if bom &&& svecMetaBomEndMask = svecMetaBomBe then "little-endian".toList else "wrong".toList

/-- `SVEC_META_VERSION_MAJ`. -/
def svecMetaVersionMaj (v : Word) : Word := (v >>> 24) &&& 0xff#32
/-- `SVEC_META_VERSION_MIN`. -/
def svecMetaVersionMin (v : Word) : Word := (v >>> 16) &&& 0xff#32
/-- `SVEC_META_VERSION_PATCH`. -/
def svecMetaVersionPatch (v : Word) : Word := v &&& 0xffff#32

/-- `print_meta_vendor`. -/
def printMetaVendor (vendor : Word) : Text :=
  if vendor = svecMetaVendorId then "CERN".toList
  else "unknown (0x".toList ++ hex8 vendor ++ ")".toList

/-- `print_meta_device`. -/
def printMetaDevice (device : Word) : Text :=
  if device = svecMetaDeviceId then "svec-base".toList
  else "unknown (0x".toList ++ hex8 device ++ ")".toList

/-- `capability`. -/
def capability : List Text :=
  ["vic".toList, "thermometer".toList, "spi".toList, "white-rabbit".toList, "build-info".toList,
    "dma-engine".toList]

/-- `print_meta_capabilities`.  The last comma is wiped out only after a known bit. -/
def printMetaCapabilities (cap : Word) : Text :=
  ((List.range 32).flatMap fun i =>
    if cap.getLsbD i then
      if i < 6 then capability.getD i [] ++ ", ".toList
      else "unknown BIT(".toList ++ dec i ++ "), ".toList
    else []) ++
  if (List.range 6).any fun i => cap.getLsbD i then "\x08\x08  ".toList else []

/-! ## The structure -/

/-- `print_meta_id_one`. -/
def printMetaIdOne (verbose : ℕ) (rom : SvecMetaId) : Text :=
  "0x".toList ++ hex8 rom.vendor ++ ",0x".toList ++ hex8 rom.device ++ ",".toList ++
    dec (svecMetaVersionMaj rom.version).toNat ++ ".".toList ++
    dec (svecMetaVersionMin rom.version).toNat ++ ".".toList ++
    dec (svecMetaVersionPatch rom.version).toNat ++
  (if 0 < verbose then
    hex8 rom.cap ++ ",".toList ++ hex8 rom.bom ++ ",".toList ++
      hex8 (rom.src 0) ++ hex8 (rom.src 1) ++ hex8 (rom.src 2) ++ hex8 (rom.src 3) ++ ",".toList ++
      hex8 (rom.uuid 0) ++ hex8 (rom.uuid 1) ++ hex8 (rom.uuid 2) ++ hex8 (rom.uuid 3)
  else []) ++
  "\n".toList

/-- `print_meta_id`. -/
def printMetaId (verbose : ℕ) (rom : SvecMetaId) : Text :=
  "\n".toList ++
  "  vendor       : ".toList ++ printMetaVendor (byteSwap rom.vendor) ++ "\n".toList ++
  "  device       : ".toList ++ printMetaDevice (byteSwap rom.device) ++ "\n".toList ++
  "  version      : ".toList ++ dec (svecMetaVersionMaj (byteSwap rom.version)).toNat ++ ".".toList ++
    dec (svecMetaVersionMin (byteSwap rom.version)).toNat ++ ".".toList ++
    dec (svecMetaVersionPatch (byteSwap rom.version)).toNat ++ "\n".toList ++
  "  capabilities : ".toList ++ printMetaCapabilities (byteSwap rom.cap) ++ "\n".toList ++
  if 0 < verbose then
    "  byte-order   : ".toList ++ bomToStr (byteSwap rom.bom) ++ "\n".toList ++
    "  sources      : ".toList ++ hex8 (byteSwap (rom.src 0)) ++ hex8 (byteSwap (rom.src 1)) ++
      hex8 (byteSwap (rom.src 2)) ++ hex8 (byteSwap (rom.src 3)) ++ "\n".toList ++
    "  UUID         : ".toList ++ hex8 (byteSwap (rom.uuid 0)) ++ hex8 (byteSwap (rom.uuid 1)) ++
      hex8 (byteSwap (rom.uuid 2)) ++ hex8 (byteSwap (rom.uuid 3)) ++ "\n".toList
  else []

/-! ## The tool -/

/-- The VME resource: its content, and which `mmap` of it succeed, by length and offset. -/
structure Resource where
  mem : ByteMemory
  mmap : ℕ → ℕ → Bool

/-- `singleline` and `verbose`. -/
structure Options where
  singleline : Bool
  verbose : ℕ

/-- What a function of the tool prints and returns. -/
structure Output where
  stdout : Text
  stderr : Text
  ret : Int

/-- `SVEC_BASE_REGS_METADATA`. -/
def svecBaseRegsMetadata : ℕ := 0x0
/-- `SVEC_BASE_REGS_CSR_APP_OFFSET`. -/
def svecBaseRegsCsrAppOffset : ℕ := 0x40

/-- `print_base_meta_id`. -/
def printBaseMetaId (o : Options) (r : Resource) : Output :=
  if !r.mmap sizeofSvecMetaId svecBaseRegsMetadata then
    ⟨[], "Failed while reading SVEC-BASE FPGA ROM\n".toList, -1⟩
  else
    let rom := overlay .little r.mem svecBaseRegsMetadata
    ⟨"base: ".toList ++ if o.singleline then printMetaIdOne o.verbose rom else printMetaId o.verbose rom,
      [], 0⟩

/-- `app_meta_id_offset`. -/
def appMetaIdOffset (r : Resource) : Int :=
  if !r.mmap 0x100 0 then -1 else ((load32 .little r.mem svecBaseRegsCsrAppOffset).toNat : Int)

/-- `print_app_meta_id`. -/
def printAppMetaId (o : Options) (r : Resource) : Output :=
  let offset := appMetaIdOffset r
  if offset < 0 then ⟨[], "Can't get svec-app offset\n".toList, -1⟩
  else if offset = 0 then ⟨[], "svec-application:\n  None\n".toList, 0⟩
  else if !r.mmap sizeofSvecMetaId offset.toNat then
    ⟨[], "Failed while reading SVEC-APP FPGA ROM\n".toList, -1⟩
  else
    let rom := overlay .little r.mem offset.toNat
    ⟨"application: ".toList ++
      if o.singleline then printMetaIdOne o.verbose rom else printMetaId o.verbose rom, [], 0⟩

/-! ## What is to be shown

The text of the two modes for metadata whose values are known. -/

/-- A version number. -/
def versionText (v : Word) : Text :=
  dec (svecMetaVersionMaj v).toNat ++ ".".toList ++ dec (svecMetaVersionMin v).toNat ++ ".".toList ++
    dec (svecMetaVersionPatch v).toNat

/-- Four words in a row. -/
def wordsText (w : Fin 4 → Word) : Text := hex8 (w 0) ++ hex8 (w 1) ++ hex8 (w 2) ++ hex8 (w 3)

/-- What the single-line mode adds with `-v`. -/
def detailText (s : SvecMetaId) : Text :=
  hex8 s.cap ++ ",".toList ++ hex8 s.bom ++ ",".toList ++ wordsText s.src ++ ",".toList ++
    wordsText s.uuid

/-- Metadata on a single line. -/
def lineText (verbose : ℕ) (s : SvecMetaId) : Text :=
  "0x".toList ++ hex8 s.vendor ++ ",0x".toList ++ hex8 s.device ++ ",".toList ++
    versionText s.version ++ (if 0 < verbose then detailText s else []) ++ "\n".toList

/-- A line of the other mode. -/
def metaLine (label : String) (value : Text) : Text := label.toList ++ value ++ "\n".toList

/-- Metadata on several lines. -/
def metaText (verbose : ℕ) (s : SvecMetaId) : Text :=
  "\n".toList ++ metaLine "  vendor       : " (printMetaVendor s.vendor) ++
    metaLine "  device       : " (printMetaDevice s.device) ++
    metaLine "  version      : " (versionText s.version) ++
    metaLine "  capabilities : " (printMetaCapabilities s.cap) ++
    if 0 < verbose then
      metaLine "  byte-order   : " (bomToStr s.bom) ++
      metaLine "  sources      : " (wordsText s.src) ++
      metaLine "  UUID         : " (wordsText s.uuid)
    else []

/-- The single-line mode shows the members as they were loaded. -/
theorem printMetaIdOne_eq (verbose : ℕ) (rom : SvecMetaId) :
    printMetaIdOne verbose rom = lineText verbose rom := by
  unfold printMetaIdOne lineText versionText detailText wordsText
  simp only [List.append_assoc]

/-- The other mode shows them swapped. -/
theorem printMetaId_eq (verbose : ℕ) (rom : SvecMetaId) :
    printMetaId verbose rom = metaText verbose (rom.map byteSwap) := by
  unfold printMetaId metaText metaLine versionText wordsText SvecMetaId.map
  simp only [List.append_assoc]

/-- The version is found again from its three numbers. -/
theorem version_ext {v w : Word} (hmaj : (svecMetaVersionMaj v).toNat = (svecMetaVersionMaj w).toNat)
    (hmin : (svecMetaVersionMin v).toNat = (svecMetaVersionMin w).toNat)
    (hpatch : (svecMetaVersionPatch v).toNat = (svecMetaVersionPatch w).toNat) : v = w := by
  have hmajor : ∀ x, (svecMetaVersionMaj x).toNat = x.toNat / 2 ^ 24 % 256 := fun x => by
    rw [svecMetaVersionMaj, BitVec.toNat_and, BitVec.toNat_ushiftRight, Nat.shiftRight_eq_div_pow]
    exact Nat.and_two_pow_sub_one_eq_mod _ 8
  have hminor : ∀ x, (svecMetaVersionMin x).toNat = x.toNat / 2 ^ 16 % 256 := fun x => by
    rw [svecMetaVersionMin, BitVec.toNat_and, BitVec.toNat_ushiftRight, Nat.shiftRight_eq_div_pow]
    exact Nat.and_two_pow_sub_one_eq_mod _ 8
  have hlow : ∀ x, (svecMetaVersionPatch x).toNat = x.toNat % 65536 := fun x => by
    rw [svecMetaVersionPatch, BitVec.toNat_and]
    exact Nat.and_two_pow_sub_one_eq_mod _ 16
  rw [hmajor, hmajor] at hmaj
  rw [hminor, hminor] at hmin
  rw [hlow, hlow] at hpatch
  have hv := v.isLt
  have hw := w.isLt
  apply BitVec.eq_of_toNat_eq
  omega

theorem versionText_injective : Function.Injective versionText := by
  intro v w h
  have hdot : ".".toList = ['.'] := rfl
  simp only [versionText, hdot, List.append_assoc] at h
  simp only [← List.append_assoc (dec _) ['.']] at h
  obtain ⟨hmaj, h⟩ := dec_delimits (c := '.') rfl h
  obtain ⟨hmin, h⟩ := dec_delimits (c := '.') rfl h
  exact version_ext hmaj hmin (dec_injective h)

theorem wordsText_delimits : Delimits wordsText := by
  intro v w s t h
  simp only [wordsText, List.append_assoc] at h
  obtain ⟨h0, h⟩ := hex8_delimits h
  obtain ⟨h1, h⟩ := hex8_delimits h
  obtain ⟨h2, h⟩ := hex8_delimits h
  obtain ⟨h3, h⟩ := hex8_delimits h
  refine ⟨funext fun k => ?_, h⟩
  match k with
  | 0 => exact h0
  | 1 => exact h1
  | 2 => exact h2
  | 3 => exact h3

theorem length_wordsText (w : Fin 4 → Word) : (wordsText w).length = 32 := rfl

/-- With `-v` the line tells every member. -/
theorem lineText_injective {verbose : ℕ} (hv : 0 < verbose) : Function.Injective (lineText verbose) := by
  intro s t h
  unfold lineText at h
  rw [if_pos hv, if_pos hv] at h
  unfold detailText at h
  simp only [List.append_assoc] at h
  obtain ⟨hvendor, h⟩ := hex8_delimits (List.append_cancel_left h)
  obtain ⟨hdevice, h⟩ := hex8_delimits (List.append_cancel_left h)
  -- No separator follows the version, but what follows is of one length.
  obtain ⟨hversion, h⟩ := List.append_inj' (List.append_cancel_left h) (by
    simp only [List.length_append, length_hex8, length_wordsText])
  obtain ⟨hcap, h⟩ := hex8_delimits h
  obtain ⟨hbom, h⟩ := hex8_delimits (List.append_cancel_left h)
  obtain ⟨hsrc, h⟩ := wordsText_delimits (List.append_cancel_left h)
  obtain ⟨huuid, -⟩ := wordsText_delimits (List.append_cancel_left h)
  exact SvecMetaId.ext hvendor hdevice (versionText_injective hversion) hbom hsrc hcap huuid

/-! ## Agreement with the driver -/

/-- `SVEC_FPGA_CSR_APP_OFF`. -/
def svecFpgaCsrAppOff : ℕ := 0x40 + 0x00

/-- `svec_fpga_csr_app_offset` of the driver. -/
def svecFpgaCsrAppOffset (m : ByteMemory) (fpga : ℕ) : Word := ioread32be m (fpga + svecFpgaCsrAppOff)

/-- The metadata as the driver reads them. -/
def driverMeta (m : ByteMemory) (fpga : ℕ) : SvecMetaId := svecFpgaMetadataGet m fpga fun _ => 0#32

/-- Metadata as the options ask for them. -/
def shown (o : Options) (s : SvecMetaId) : Text :=
  if o.singleline then lineText o.verbose s else metaText o.verbose s

/-- Whatever the tool decodes, it decodes as the driver does: the metadata of the base and of
the application in every mode, and where the latter are. -/
structure Consistent (r : Resource) : Prop where
  base : r.mmap sizeofSvecMetaId svecBaseRegsMetadata = true → ∀ o,
    (printBaseMetaId o r).stdout = "base: ".toList ++ shown o (driverMeta r.mem svecBaseRegsMetadata)
  offset : r.mmap 0x100 0 = true → appMetaIdOffset r = ((svecFpgaCsrAppOffset r.mem 0).toNat : Int)
  app : r.mmap 0x100 0 = true → svecFpgaCsrAppOffset r.mem 0 ≠ 0#32 →
    r.mmap sizeofSvecMetaId (svecFpgaCsrAppOffset r.mem 0).toNat = true → ∀ o,
    (printAppMetaId o r).stdout =
      "application: ".toList ++ shown o (driverMeta r.mem (svecFpgaCsrAppOffset r.mem 0).toNat)

/-- Metadata all of whose words are the same in both byte orders. -/
def Palindromes (m : ByteMemory) (rom : ℕ) : Prop := ∀ f : Member, Palindrome (ioread32be m (rom + f.offset))

/-- Every word that the tool decodes is the same in both byte orders. -/
structure Symmetric (r : Resource) : Prop where
  base : r.mmap sizeofSvecMetaId svecBaseRegsMetadata = true → Palindromes r.mem svecBaseRegsMetadata
  offset : r.mmap 0x100 0 = true → Palindrome (svecFpgaCsrAppOffset r.mem 0)
  app : r.mmap 0x100 0 = true → svecFpgaCsrAppOffset r.mem 0 ≠ 0#32 →
    r.mmap sizeofSvecMetaId (svecFpgaCsrAppOffset r.mem 0).toNat = true →
    Palindromes r.mem (svecFpgaCsrAppOffset r.mem 0).toNat

/-- What is printed of the structure at `rom`. -/
def printed (o : Options) (m : ByteMemory) (rom : ℕ) : Text :=
  if o.singleline then printMetaIdOne o.verbose (overlay .little m rom)
  else printMetaId o.verbose (overlay .little m rom)

/-- The mode with several lines always shows what the driver reads. -/
theorem printed_multiline (verbose : ℕ) (m : ByteMemory) (rom : ℕ) :
    printed ⟨false, verbose⟩ m rom = shown ⟨false, verbose⟩ (driverMeta m rom) := by
  show printMetaId verbose (overlay .little m rom) = metaText verbose (driverMeta m rom)
  rw [printMetaId_eq]
  exact congrArg (metaText verbose) (fromBig_overlay .little m rom _)

theorem overlay_eq_iff {m : ByteMemory} {rom : ℕ} :
    overlay .little m rom = driverMeta m rom ↔ Palindromes m rom := by
  constructor
  · intro h f
    have hf := congrArg (fun s => SvecMetaId.get s f) h
    rw [driverMeta, overlay_get, metadataGet_get] at hf
    exact load32_little_eq_big.mp hf
  · intro h
    refine SvecMetaId.ext_get fun f => ?_
    rw [driverMeta, overlay_get, metadataGet_get]
    exact load32_little_eq_big.mpr (h f)

/-- All modes show what the driver reads exactly if no word depends on the byte order. -/
theorem printed_iff {m : ByteMemory} {rom : ℕ} :
    (∀ o, printed o m rom = shown o (driverMeta m rom)) ↔ Palindromes m rom := by
  rw [← overlay_eq_iff]
  constructor
  · intro h
    have hline : printMetaIdOne 1 (overlay .little m rom) = lineText 1 (driverMeta m rom) := h ⟨true, 1⟩
    rw [printMetaIdOne_eq] at hline
    exact lineText_injective Nat.one_pos hline
  · rintro h ⟨single, verbose⟩
    cases single with
    | false => exact printed_multiline verbose m rom
    | true =>
      show printMetaIdOne verbose (overlay .little m rom) = lineText verbose (driverMeta m rom)
      rw [printMetaIdOne_eq, h]

theorem printBaseMetaId_stdout {r : Resource} (h : r.mmap sizeofSvecMetaId svecBaseRegsMetadata = true)
    (o : Options) :
    (printBaseMetaId o r).stdout = "base: ".toList ++ printed o r.mem svecBaseRegsMetadata := by
  rw [printBaseMetaId, h]
  rfl

theorem appMetaIdOffset_eq {r : Resource} (h : r.mmap 0x100 0 = true) :
    appMetaIdOffset r = ((load32 .little r.mem svecBaseRegsCsrAppOffset).toNat : Int) := by
  rw [appMetaIdOffset, h]
  rfl

/-- The offset is right exactly if it does not depend on the byte order. -/
theorem offset_iff {r : Resource} (h : r.mmap 0x100 0 = true) :
    appMetaIdOffset r = ((svecFpgaCsrAppOffset r.mem 0).toNat : Int) ↔
      Palindrome (svecFpgaCsrAppOffset r.mem 0) := by
  have hoff : svecFpgaCsrAppOffset r.mem 0 = load32 .big r.mem svecBaseRegsCsrAppOffset :=
    congrArg (load32 .big r.mem) (Nat.zero_add _)
  rw [appMetaIdOffset_eq h, hoff, ← load32_little_eq_big, Int.ofNat_inj, BitVec.toNat_inj]

theorem printAppMetaId_stdout {r : Resource} {offset : Word}
    (h : appMetaIdOffset r = (offset.toNat : Int)) (hne : offset ≠ 0#32)
    (hmap : r.mmap sizeofSvecMetaId offset.toNat = true) (o : Options) :
    (printAppMetaId o r).stdout = "application: ".toList ++ printed o r.mem offset.toNat := by
  have hpos : offset.toNat ≠ 0 := fun h => hne (BitVec.eq_of_toNat_eq h)
  have hneg : ¬ (offset.toNat : Int) < 0 := by omega
  have hzero : ¬ (offset.toNat : Int) = 0 := by omega
  simp only [printAppMetaId, h, if_neg hneg, if_neg hzero, Int.toNat_natCast, hmap]
  rfl

theorem symmetric_of_consistent {r : Resource} (h : Consistent r) : Symmetric r where
  base hmap := printed_iff.mp fun o => by
    have ho := h.base hmap o
    rw [printBaseMetaId_stdout hmap] at ho
    exact List.append_cancel_left ho
  offset hmap := (offset_iff hmap).mp (h.offset hmap)
  app hmap hne happ := printed_iff.mp fun o => by
    have ho := h.app hmap hne happ o
    rw [printAppMetaId_stdout (h.offset hmap) hne happ] at ho
    exact List.append_cancel_left ho

theorem consistent_of_symmetric {r : Resource} (h : Symmetric r) : Consistent r where
  base hmap o := by
    rw [printBaseMetaId_stdout hmap, printed_iff.mpr (h.base hmap)]
  offset hmap := (offset_iff hmap).mpr (h.offset hmap)
  app hmap hne happ o := by
    rw [printAppMetaId_stdout ((offset_iff hmap).mpr (h.offset hmap)) hne happ,
      printed_iff.mpr (h.app hmap hne happ)]

/-- The tool agrees with the driver exactly if no word that it decodes depends on the byte
order. -/
theorem consistent_iff_symmetric (r : Resource) : Consistent r ↔ Symmetric r :=
  ⟨symmetric_of_consistent, consistent_of_symmetric⟩

/-- A card with the base and no application. -/
def baseCard : Resource where
  mem := wordsAt fun k =>
    if k < 16 then Svec.Hdl.SvecBaseRom.pMetadata ⟨true, true, true, false, true, true⟩ 0 (BitVec.ofNat 4 k)
    else 0#32
  mmap _ _ := true

/-- The vendor 0x10dc is shown as 0xdc100000 on a single line. -/
theorem vendor_shown_swapped : ¬ ∀ r, Consistent r := by
  intro h
  have hvendor := (symmetric_of_consistent (h baseCard)).base rfl .vendor
  exact absurd hvendor (by decide)

end Svec.Host.FirmwareVersion
