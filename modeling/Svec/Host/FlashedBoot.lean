/-
  Host/FlashedBoot.lean --- what was flashed is what the card boots.

  `program_flash` writes the SDB header and the file.  A file that ends before the
  header leaves the signature alone, and from the next reset on the card finds it,
  and shifts the bytes of the file into the application FPGA.
-/
import Svec.Host.FlashRegions
import Svec.Boot.FlashFinish

set_option autoImplicit false

namespace Svec.Host.FlashedBoot

open Svec.Data Svec.Hdl Svec.Hdl.Bootloader Svec.Host Svec.Prog Svec.Host.FlashTool Svec.Host.NorFlash
  Svec.Host.FlashCommands Svec.Host.FlashProgram Svec.Host.FlashRegions
open Svec.Boot.FlashStream Svec.Boot.FlashPins Svec.Boot.HostMode
open Svec.Hdl.FlashBoot (cSdbRootOffset cSdbBitstreamOffset cSdbSignature)
open Svec.Loader.Delivery (Opening)

variable {m : Model} {T : Timing}

/-! ## The flash after `program_flash` -/

/-- The flash holds the file as the bitstream, and the signature before it. -/
structure Holds (file : List Byte) (content : Memory) : Prop where
  signed : Signed content 4
  file : ∀ (k : ℕ) (hk : k < file.length), bitstreamByte content k = file[k]

/-- A file that ends before the SDB header. -/
def fileRange (buf : Buffer) (hsize : buf.bytes.length ≤ 0x500000) : FlashProgram.Range where
  addr := bootloaderBitstreamBase
  data := buf
  aligned := by decide
  fits := by
    have haddr : bootloaderBitstreamBase.toNat = 0x100000 := rfl
    unfold flashSize
    omega

/-- Its sectors end before the header. -/
theorem fileRange_meets {buf : Buffer} {hsize : buf.bytes.length ≤ 0x500000} {x : ℕ}
    (h : (fileRange buf hsize).Meets m x) : x < 0x600000 := by
  obtain ⟨j, hj, hsector⟩ := h
  have hj' : j < buf.bytes.length := hj
  have haddr : (fileRange buf hsize).addr.toNat = 0x100000 := rfl
  rw [haddr] at hsector
  cases m <;>
    simp only [Model.sectorSize, flashSectorSizeM25p128, flashSectorSizeMt25ql128] at hsector <;> omega

theorem toInt_file {n : ℕ} (hn : n ≤ 0x500000) : toInt n = (n : Int) := by
  unfold toInt
  rw [BitVec.toInt_eq_toNat_of_lt (by rw [BitVec.toNat_ofNat]; omega), BitVec.toNat_ofNat,
    Nat.mod_eq_of_lt (by omega)]

/-- The header starts with the signature. -/
theorem sdbHeader_signature : ∀ j, j < 4 → sdbRange.data.byte j = cSdbSignature j := by
  decide

theorem program_flash_holds (malloc : ℕ → Bool) (hmalloc : malloc 0 = true ∧ malloc 1 = true) (buf : Buffer)
    (hsize : buf.bytes.length ≤ 0x500000) (confirm : String) (mem : Memory) (wel : Bool) :
    ∃ content wel' ops, Ends (nor (m := m) (T := T))
        (programFlash malloc buf buf.bytes.length false confirm) (idle mem wel []) 0
        (idle content wel' ops) ∧ Holds buf.bytes content := by
  obtain ⟨mem₁, wel₁, ops₁, hsdb, hheader, -, -⟩ := flashProgram_ends (m := m) (T := T) sdbRange mem wel []
  obtain ⟨mem₂, wel₂, ops₂, hfile, hwritten, hkept, -⟩ :=
    flashProgram_ends (m := m) (T := T) (fileRange buf hsize) mem₁ wel₁ ([] ++ ops₁)
  refine ⟨mem₂, wel₂, [] ++ ops₁ ++ ops₂, ?_, ?_, ?_⟩
  · refine spiTestPresence_ends.bind (flashReadId_ends.bind ?_)
    rw [if_neg (known m), hmalloc.1]
    refine hsdb.bind ?_
    rw [if_pos rfl, hmalloc.2, toInt_file hsize]
    exact hfile
  · intro j hj
    have hj' : (cSdbRootOffset + BitVec.ofNat 24 j).toNat = 0x600000 + j := by
      rw [cSdbRootOffset, BitVec.toNat_add, BitVec.toNat_ofNat, BitVec.toNat_ofNat]
      omega
    have haddr : (sdbRange.addr.toNat = 0x600000) ∧ 4 ≤ sdbRange.size := by decide +kernel
    rw [hkept _ fun hmeets => absurd (fileRange_meets hmeets) (by omega),
      hheader _ (by omega) (by omega), hj', haddr.1, Nat.add_sub_cancel_left]
    exact sdbHeader_signature j hj
  · intro k hk
    have hk' : (cSdbBitstreamOffset + BitVec.ofNat 24 k).toNat = 0x100000 + k := by
      rw [cSdbBitstreamOffset, BitVec.toNat_add, BitVec.toNat_ofNat, BitVec.toNat_ofNat]
      omega
    have haddr : (fileRange buf hsize).addr.toNat = 0x100000 := rfl
    have hlen : (fileRange buf hsize).size = buf.bytes.length := rfl
    rw [bitstreamByte, hwritten _ (by omega) (by omega), hk', haddr, Nat.add_sub_cancel_left]
    show buf.byte k = _
    simp [Buffer.byte, hk]

/-! ## The boot -/

/-- The first bytes of the bitstream are a prefix of the file, or the other way round. -/
theorem Holds.comparable {file : List Byte} {content : Memory} (h : Holds file content) (n : ℕ) :
    (List.range n).map (bitstreamByte content) <+: file ∨
      file <+: (List.range n).map (bitstreamByte content) := by
  rcases Nat.le_total n file.length with hle | hle
  · left
    have htake : (List.range n).map (bitstreamByte content) = file.take n := by
      refine List.ext_getElem (by simp [hle]) fun k hk hk' => ?_
      rw [List.getElem_map, List.getElem_range, List.getElem_take]
      exact h.file k _
    rw [htake]
    exact List.take_prefix n file
  · right
    have htake : ((List.range n).map (bitstreamByte content)).take file.length = file := by
      refine List.ext_getElem (by simp [hle]) fun k hk hk' => ?_
      rw [List.getElem_take, List.getElem_map, List.getElem_range]
      exact h.file k hk'
    rw [← htake]
    exact List.take_prefix _ _

theorem Holds.prefix_of_le {file : List Byte} {content : Memory} (h : Holds file content) {n : ℕ}
    (hle : file.length ≤ n) : file <+: (List.range n).map (bitstreamByte content) := by
  rcases h.comparable n with hpre | hpre
  · have heq := hpre.eq_of_length_le (by simpa using hle)
    exact heq ▸ List.prefix_refl _
  · exact hpre

theorem flatMap_prefix {α β : Type} {xs ys : List α} (h : xs <+: ys) (f : α → List β) :
    xs.flatMap f <+: ys.flatMap f := by
  obtain ⟨zs, rfl⟩ := h
  rw [List.flatMap_append]
  exact List.prefix_append _ _

/-- How the boot of a card goes whose flash holds the file: the bytes that are shifted out, most
significant bit first, start with the file or are the start of it, until the loader sees DONE; and a
boot that reads, without the loader's DONE flag, has the whole file sampled unless the loader sees
DONE. -/
structure BootsFile (file : List Byte) {P : Parts} (s : Regs P) (inp : ℕ → In) : Prop where
  shifts : ∀ t, Unseen s inp t → ∃ bytes, (bytes <+: file ∨ file <+: bytes) ∧
    ((pinSamples s inp 1 t = [] ∧ ((core s inp (t + 1)).xldr.state = .idle ∨
        Opening (core s inp (t + 1)).xldr.state)) ∨
      pinSamples s inp 1 t ++ flashInLoader (core s inp (t + 1)) = bytes.flatMap byteBits)
  completes : ∀ t, (core s inp (t + 1)).xldr.state = .readFifo → (core s inp (t + 1)).xldr.csrDone = false →
    file.length ≤ 0x408001 → (∃ T, t ≤ T ∧ SeesDoneAt s inp T) ∨
      ∃ T, ∀ u, T ≤ u → file.flatMap byteBits <+: pinSamples s inp 1 u

theorem Holds.boots {file : List Byte} {content : Memory} (h : Holds file content) {P : Parts} {s : Regs P}
    {inp : ℕ → In} {l : ℕ → SpiLink} (hrun : FlashRun content s inp l) : BootsFile file s inp where
  shifts t hunseen := by
    obtain ⟨n, -, -, hdel, -⟩ := stands_run hrun hunseen
    exact ⟨delivered s inp t, hdel ▸ h.comparable n, samples_of_delivered hrun hunseen⟩
  completes t hread hflag hlen := by
    rcases Svec.Boot.FlashFinish.samples_all_or_done hrun hread hflag with hdone | ⟨T, hT⟩
    · exact .inl hdone
    · refine .inr ⟨T, fun u hu => ?_⟩
      rw [hT u hu]
      exact flatMap_prefix (h.prefix_of_le hlen) byteBits

/-- For both chips, however long they take, and every file that ends before the SDB header:
`program_flash` returns 0, and from the next reset on the card boots the file from the flash if the
host stays away. -/
theorem flashed_file_boots (m : Model) (T : Timing) (malloc : ℕ → Bool)
    (hmalloc : malloc 0 = true ∧ malloc 1 = true) (buf : Buffer) (hsize : buf.bytes.length ≤ 0x500000)
    (confirm : String) (mem : Memory) (wel : Bool) :
    ∃ content wel' ops, Ends (nor (m := m) (T := T))
        (programFlash malloc buf buf.bytes.length false confirm) (idle mem wel []) 0
        (idle content wel' ops) ∧
      ∀ (P : Parts) (s : Regs P) (inp : ℕ → In) (l : ℕ → SpiLink), FlashRun content s inp l →
        BootsFile buf.bytes s inp := by
  obtain ⟨content, wel', ops, hends, hholds⟩ :=
    program_flash_holds (m := m) (T := T) malloc hmalloc buf hsize confirm mem wel
  exact ⟨content, wel', ops, hends, fun _ _ _ _ hrun => hholds.boots hrun⟩

/-- A file of three bytes on an erased chip, and the emulated flash with what is in it then. -/
theorem flashed_file_boots_three :
    ∃ content wel' ops, Ends (nor (m := .m25p128) (T := slowCard))
        (programFlash (fun _ => true) ⟨[1#8, 2#8, 3#8], fun _ => 0#8⟩ 3 false "") (idle (fun _ => 0xff#8) false []) 0
        (idle content wel' ops) ∧ BootsFile [1#8, 2#8, 3#8] (powerUp content) aloneIn := by
  obtain ⟨content, wel', ops, hends, hboots⟩ := flashed_file_boots .m25p128 slowCard (fun _ => true)
    (by decide) ⟨[1#8, 2#8, 3#8], fun _ => 0#8⟩ (by decide) "" (fun _ => 0xff#8) false
  exact ⟨content, wel', ops, hends, hboots _ _ _ _ (alone_flashRun content _)⟩

end Svec.Host.FlashedBoot
