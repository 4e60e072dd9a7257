/-
  Host/BuildInfo.lean --- the build information, from the FPGA to the reader.

  `p_buildinfo` packs a string into words, the first character in the least
  significant byte.  `svec_fpga_dbg_bld_info` of the driver and `print_build_info` of
  the version tool take the words apart again, each in its own way, and stop at the
  first NUL or at the end of the window.  Both run on a little-endian host.
-/
import Svec.Host.FirmwareVersion

set_option autoImplicit false

namespace Svec.Host.BuildInfo

open Svec.Data Svec.Hdl.SvecBaseRom Svec.Host.Metadata Svec.Host.FirmwareVersion

/-- `SVEC_BASE_REGS_BUILDINFO`. -/
def svecBaseRegsBuildinfo : ℕ := 0x200
/-- `SVEC_BASE_REGS_BUILDINFO_SIZE`. -/
def svecBaseRegsBuildinfoSize : ℕ := 256
/-- `SVEC_META_CAP_BLD`, as a bit number. -/
def svecMetaCapBldBit : ℕ := 4

/-! ## The two readers -/

section Loops

variable (put : Byte → List Byte) (word : ℕ → Word)

/-- The inner loop: what is put out for the characters of a word, and whether a NUL ended
it. -/
def putWord : List Byte → List Byte × Bool
  | [] => ([], false)
  | c :: cs => if c = 0#8 then ([], true) else (put c ++ (putWord cs).1, (putWord cs).2)

/-- The outer loop, over the words of the window from an offset on. -/
def putWindow (off : ℕ) : List Byte :=
  if off < svecBaseRegsBuildinfo + svecBaseRegsBuildinfoSize - 1 then
    let (out, ended) := putWord put (storedBytes .little (word off))
    if ended then out else out ++ putWindow (off + 4)
  else []
termination_by svecBaseRegsBuildinfo + svecBaseRegsBuildinfoSize - off

end Loops

/-- `svec_fpga_dbg_bld_info`, with `cap` of the base's metadata. -/
def svecFpgaDbgBldInfo (cap : Word) (m : ByteMemory) (fpga : ℕ) : List Byte :=
  if !cap.getLsbD svecMetaCapBldBit then ascii "not available\n"
  else putWindow (fun c => [c]) (fun off => ioread32be m (fpga + off)) svecBaseRegsBuildinfo

/-- A character of the tool's output. -/
def indent (c : Byte) : List Byte := if c = 0x0a#8 then c :: ascii "  " else [c]

/-- `print_build_info`: standard output, standard error and what is returned. -/
def printBuildInfo (r : Resource) : List Byte × Text × Int :=
  if !r.mmap (svecBaseRegsBuildinfo + svecBaseRegsBuildinfoSize) 0 then
    ([], "Failed while reading SVEC-BASE FPGA BUILD INFO\n".toList, -1)
  else
    (ascii "build-info : \n  " ++
      putWindow indent (fun off => byteSwap (load32 .little r.mem off)) svecBaseRegsBuildinfo ++
      ascii "\n", [], 0)

/-! ## The loops -/

theorem putWord_eq (put : Byte → List Byte) (cs : List Byte) :
    putWord put cs = ((cString cs).flatMap put, decide (0#8 ∈ cs)) := by
  induction cs with
  | nil => rfl
  | cons c cs ih =>
    rw [putWord]
    by_cases hc : c = 0#8
    · subst hc
      rw [if_pos rfl, decide_eq_true List.mem_cons_self]
      rfl
    · rw [if_neg hc, ih, cString_cons hc]
      simp [Ne.symm hc]

/-- The characters of the string that the window has from word `k` on. -/
def windowFrom (s : List Byte) (k : ℕ) : List Byte :=
  (List.range' (4 * k) (256 - 4 * k)).map fun n => s.getD n 0#8

theorem windowFrom_step (s : List Byte) {k : ℕ} (hk : k < 64) :
    windowFrom s k = storedBytes .little (pBuildinfo s (BitVec.ofNat 6 k)) ++ windowFrom s (k + 1) := by
  have haddr : (BitVec.ofNat 6 k).toNat * 4 = 4 * k := by
    rw [BitVec.toNat_ofNat, Nat.mod_eq_of_lt hk, Nat.mul_comm]
  have hsplit : List.range' (4 * k) (256 - 4 * k) =
      List.range' (4 * k) 4 ++ List.range' (4 * (k + 1)) (256 - 4 * (k + 1)) := by
    rw [show 4 * (k + 1) = 4 * k + 1 * 4 by omega, List.range'_append]
    congr 1
    omega
  rw [windowFrom, hsplit, List.map_append, storedBytes, leBytes_pBuildinfo, haddr]
  rfl

/-- The FPGA serves the string: the words of the window are those of `p_buildinfo`. -/
def Serves (word : ℕ → Word) (s : List Byte) : Prop :=
  ∀ k < 64, word (svecBaseRegsBuildinfo + 4 * k) = pBuildinfo s (BitVec.ofNat 6 k)

/-- From each word on, the loop puts out the characters up to the first NUL. -/
theorem putWindow_from {word : ℕ → Word} {s : List Byte} (put : Byte → List Byte) (h : Serves word s)
    {n k : ℕ} (hk : k + n = 64) :
    putWindow put word (svecBaseRegsBuildinfo + 4 * k) = (cString (windowFrom s k)).flatMap put := by
  induction n generalizing k with
  | zero =>
    obtain rfl : k = 64 := hk
    rw [putWindow, if_neg (by decide)]
    rfl
  | succ n ih =>
    have hlt : k < 64 := by omega
    have hin : svecBaseRegsBuildinfo + 4 * k < svecBaseRegsBuildinfo + svecBaseRegsBuildinfoSize - 1 := by
      simp only [svecBaseRegsBuildinfo, svecBaseRegsBuildinfoSize]
      omega
    rw [putWindow, if_pos hin, h k hlt, putWord_eq, windowFrom_step s hlt]
    by_cases hnul : 0#8 ∈ storedBytes .little (pBuildinfo s (BitVec.ofNat 6 k))
    · rw [cString_append_of_mem hnul]
      simp only [decide_eq_true hnul, if_true]
    · rw [cString_append_of_not_mem hnul, List.flatMap_append, ← ih (k := k + 1) (by omega)]
      simp only [decide_eq_false hnul, Bool.false_eq_true, if_false]
      have hall := cString_append_of_not_mem hnul []
      rw [List.append_nil] at hall
      rw [hall]
      simp only [cString, List.takeWhile_nil, List.append_nil, Nat.mul_add, Nat.add_assoc, Nat.mul_one]

/-- What a reader puts out of a string that the FPGA serves. -/
theorem putWindow_eq {word : ℕ → Word} {s : List Byte} (put : Byte → List Byte) (h : Serves word s) :
    putWindow put word svecBaseRegsBuildinfo = (cString (s.take 256)).flatMap put := by
  have hwindow : windowFrom s 0 = (List.range 256).map fun n => s.getD n 0#8 := by
    rw [windowFrom, List.range_eq_range']
  have hall := putWindow_from put h (n := 64) (k := 0) rfl
  rw [hwindow, cString_padded] at hall
  exact hall

/-! ## The round trip -/

/-- Text without the indentation: the two characters after each newline are left out. -/
def unindent : List Byte → List Byte
  | [] => []
  | c :: l => c :: unindent (if c = 0x0a#8 then l.drop 2 else l)
termination_by l => l.length
decreasing_by
  split
  · rw [List.length_drop, List.length_cons]
    omega
  · exact Nat.lt_succ_self _

/-- The indentation hides nothing. -/
theorem unindent_indent (l : List Byte) : unindent (l.flatMap indent) = l := by
  induction l with
  | nil => rw [List.flatMap_nil, unindent]
  | cons c l ih =>
    rw [List.flatMap_cons, indent]
    by_cases hc : c = 0x0a#8
    · subst hc
      show unindent (0x0a#8 :: 0x20#8 :: 0x20#8 :: l.flatMap indent) = 0x0a#8 :: l
      rw [unindent, if_pos rfl]
      exact congrArg _ ih
    · rw [if_neg hc, List.singleton_append, unindent, if_neg hc, ih]

/-- Both readers put out the string of the FPGA, its first 256 characters and up to its first
NUL; the tool indents it. -/
theorem build_info_round_trip (s : List Byte) {cap : Word} {m : ByteMemory} {fpga : ℕ} {r : Resource}
    (hcap : cap.getLsbD svecMetaCapBldBit = true)
    (hdriver : Serves (fun off => ioread32be m (fpga + off)) s)
    (hmap : r.mmap (svecBaseRegsBuildinfo + svecBaseRegsBuildinfoSize) 0 = true)
    (htool : Serves (ioread32be r.mem) s) :
    svecFpgaDbgBldInfo cap m fpga = cString (s.take 256) ∧
      ∃ text, printBuildInfo r = (ascii "build-info : \n  " ++ text ++ ascii "\n", [], 0) ∧
        text = (cString (s.take 256)).flatMap indent ∧ unindent text = cString (s.take 256) := by
  constructor
  · rw [svecFpgaDbgBldInfo, hcap, putWindow_eq _ hdriver]
    exact List.flatMap_singleton' _
  · refine ⟨_, ?_, rfl, unindent_indent _⟩
    have hword : (fun off => byteSwap (load32 .little r.mem off)) = ioread32be r.mem :=
      funext fun off => byteSwap_load32 r.mem off
    rw [printBuildInfo, hmap, hword, putWindow_eq indent htool]
    rfl

/-- A card whose build information is the string. -/
def cardWith (s : List Byte) : ByteMemory := wordsAt fun k => pBuildinfo s (BitVec.ofNat 6 (k - 128))

theorem cardWith_serves (s : List Byte) : Serves (ioread32be (cardWith s)) s := by
  intro k _
  have hword := load32_wordsAt (fun k => pBuildinfo s (BitVec.ofNat 6 (k - 128))) (128 + k)
  rw [Nat.add_sub_cancel_left, show 4 * (128 + k) = svecBaseRegsBuildinfo + 4 * k by
    rw [svecBaseRegsBuildinfo]
    omega] at hword
  exact hword

theorem build_info_round_trip_two_lines :
    svecFpgaDbgBldInfo 0x10#32 (cardWith (ascii "svec\nbase")) 0 = ascii "svec\nbase" ∧
      ∃ text, printBuildInfo ⟨cardWith (ascii "svec\nbase"), fun _ _ => true⟩ =
          (ascii "build-info : \n  " ++ text ++ ascii "\n", [], 0) ∧
        text = ascii "svec\n  base" ∧ unindent text = ascii "svec\nbase" :=
  build_info_round_trip (ascii "svec\nbase") (by decide)
    (by simpa only [Nat.zero_add] using cardWith_serves (ascii "svec\nbase")) rfl (cardWith_serves _)

end Svec.Host.BuildInfo
