/-
  Host/Attributes.lean --- the FPGA device's attributes, `svec-core-fpga.c`.

  Once the metadata are read and found valid, user space reads and writes the
  carrier through the attributes of the device: the application's reset, the presence
  of the mezzanines, the revision of the board, the thermometer.  Each is a script of
  accesses; a `udelay` is a pause, and pauses are where the host likes.
-/
import Svec.Carrier.Paths
import Svec.Data.Text
import Svec.Host.Metadata
import Svec.Host.SvecCoreFpga

set_option autoImplicit false

namespace Svec.Host.Attributes

open Svec.Sync (collect)
open Svec.Data Svec.Hdl Svec.Hdl.SvecBaseRegs Svec.Hdl.SvecBaseRom Svec.Hdl.Carrier Svec.Carrier
open Svec.Host.Metadata (SvecMetaId Member sizeofSvecMetaId get_ofCells)
open Svec.Host.SvecCoreFpga (Build svecFpgaIsValid svecFpgaIsValidVersion svecMetaBomEndMask svecMetaBomBe
  svecMetaBomVerMask svecMetaVendorId svecMetaDeviceId svecFmcSlots)
open Svec.Prog.Script (Path Paced Busy busy_pure path_pure path_ret path_access path_bind path_map)

/-! ## The functions -/

/-- `ioread32be`, at an offset from `svec_fpga->fpga`. -/
def ioread32be (off : Word) : Script Word := .access ⟨off, 0xf#4, false, 0#32⟩ fun x => .ret (x.getD 0#32)

/-- `iowrite32be`. -/
def iowrite32be (v off : Word) : Script Unit := .access ⟨off, 0xf#4, true, v⟩ fun _ => .ret ()

/-- `SVEC_FPGA_CSR_APP_OFF`. -/
def csrAppOff : Word := 0x40#32
/-- `SVEC_FPGA_CSR_RESETS`. -/
def csrResets : Word := 0x44#32
/-- `SVEC_FPGA_CSR_FMC_PRESENT`. -/
def csrFmcPresent : Word := 0x48#32
/-- `SVEC_FPGA_CSR_PCB_REV`. -/
def csrPcbRev : Word := 0x54#32
/-- `SVEC_FPGA_THERM_SERID_MSB`. -/
def thermSeridMsb : Word := 0x80#32
/-- `SVEC_FPGA_THERM_SERID_LSB`. -/
def thermSeridLsb : Word := 0x84#32
/-- `SVEC_FPGA_THERM_TEMP`. -/
def thermTemp : Word := 0x88#32
/-- `SVEC_META_BASE`. -/
def metaBase : Word := 0x00#32

/-- `SVEC_FPGA_CSR_RESETS_APP`. -/
def csrResetsApp : Word := 0x2#32
/-- `SVEC_META_CAP_THERM`, as a bit number. -/
def metaCapThermBit : ℕ := 1

/-- The loop of `svec_fpga_metadata_get`, with `n` rounds to go. -/
def metadataLoop (fpga : Word) : ℕ → ℕ → (ℕ → Word) → Script (ℕ → Word)
  | 0, _, metaTmp => pure metaTmp
  | n + 1, i, metaTmp => do
    let x ← ioread32be (fpga + BitVec.ofNat 32 (i * 4))
    metadataLoop fpga n (i + 1) (Function.update metaTmp i x)

/-- `svec_fpga_metadata_get`. -/
def svecFpgaMetadataGet (fpga : Word) (metaTmp : ℕ → Word) : Script SvecMetaId := do
  let cells ← metadataLoop fpga (sizeofSvecMetaId / 4) 0 metaTmp
  pure (.ofCells cells)

/-- `svec_fpga_app_reset`. -/
def svecFpgaAppReset (val : Bool) : Script Unit := do
  let resets ← ioread32be csrResets
  iowrite32be (if val then resets ||| csrResetsApp else resets &&& ~~~csrResetsApp) csrResets

/-- `svec_fpga_app_restart`. -/
def svecFpgaAppRestart : Script Unit := do
  svecFpgaAppReset true
  svecFpgaAppReset false

/-- `reset_app_show`. -/
def resetAppShow : Script Text := do
  let resets ← ioread32be csrResets
  pure (dec (if resets &&& csrResetsApp ≠ 0#32 then 1 else 0) ++ "\n".toList)

/-- `reset_app_store`, with what `kstrtol` makes of the text. -/
def resetAppStore (kstrtol : Except Int Int) (count : Int) : Script Int :=
  match kstrtol with
  | .error err => pure err
  | .ok val => do
    svecFpgaAppReset (val ≠ 0)
    pure count

/-- `svec_fmc_presence`. -/
def svecFmcPresence : Script Byte := do
  let presence ← ioread32be csrFmcPresent
  pure (presence.setWidth 8 &&& (BitVec.ofNat 8 (2 ^ svecFmcSlots) - 1#8))

/-- `svec_fmc_is_present`, for a slot by its logical unit number; these count from 1. -/
def svecFmcIsPresent (lun : ℕ) : Script Bool := do
  let presence ← svecFmcPresence
  pure (presence.setWidth 32 &&& BitVec.twoPow 32 (lun - 1) ≠ 0#32)

/-- `%x`. -/
def hex (w : Word) : Text := Nat.toDigits 16 w.toNat

/-- `pcb_rev_show`. -/
def pcbRevShow : Script Text := do
  let rev ← ioread32be csrPcbRev
  pure ("0x".toList ++ hex rev ++ "\n".toList)

/-- `application_offset_show`. -/
def applicationOffsetShow : Script Text := do
  let offset ← ioread32be csrAppOff
  pure ("0x".toList ++ hex offset ++ "\n".toList)

/-- What `temperature_show` prints of a register. -/
def temperatureText (temp : Word) : Text :=
  dec (temp.toNat / 16) ++ ".".toList ++ dec ((temp &&& 0xf#32).toNat * 1000 / 16) ++ " C\n".toList

/-- `temperature_show`. -/
def temperatureShow (cap : Word) : Script Text :=
  if cap.getLsbD metaCapThermBit then do
    let temp ← ioread32be thermTemp
    pure (temperatureText temp)
  else pure "-.- C\n".toList

/-- `serial_number_show`. -/
def serialNumberShow (cap : Word) : Script Text :=
  if cap.getLsbD metaCapThermBit then do
    let msb ← ioread32be thermSeridMsb
    let lsb ← ioread32be thermSeridLsb
    pure ("0x".toList ++ hex8 msb ++ hex8 lsb ++ "\n".toList)
  else pure "0x----------------\n".toList

/-! ## Sessions -/

/-- What user space, or another part of the driver, asks for. -/
inductive Request where
  | restart
  | resetAppShow
  | resetAppStore (kstrtol : Except Int Int) (count : Int)
  | isPresent (slot : ℕ)
  | pcbRevShow
  | applicationOffsetShow
  | temperatureShow
  | serialNumberShow

/-- What it gets. -/
inductive Answer where
  | done
  | text (s : Text)
  | number (n : Int)
  | yes (b : Bool)

/-- A request is served. -/
def serve (cap : Word) : Request → Script Answer
  | .restart => do
    svecFpgaAppRestart
    pure .done
  | .resetAppShow => .text <$> resetAppShow
  | .resetAppStore kstrtol count => .number <$> resetAppStore kstrtol count
  | .isPresent slot => .yes <$> svecFmcIsPresent (slot + 1)
  | .pcbRevShow => .text <$> pcbRevShow
  | .applicationOffsetShow => .text <$> applicationOffsetShow
  | .temperatureShow => .text <$> temperatureShow cap
  | .serialNumberShow => .text <$> serialNumberShow cap

/-- One request after the other. -/
def serveAll (cap : Word) : List Request → Script (List Answer)
  | [] => pure []
  | q :: qs => do
    let a ← serve cap q
    let rest ← serveAll cap qs
    pure (a :: rest)

/-- The metadata are read, and if they are valid the requests are served. -/
def session (b : Build) (versionIgnore : Bool) (metaTmp : ℕ → Word) (qs : List Request) :
    Script (SvecMetaId × Option (List Answer)) := do
  let m ← svecFpgaMetadataGet metaBase metaTmp
  if svecFpgaIsValid b versionIgnore ⟨m.vendor, m.device, m.version, m.bom, m.cap⟩ then
    let answers ← serveAll m.cap qs
    pure (m, some answers)
  else pure (m, none)

/-! ## What they come to -/

section Specs

variable (d : Design) (env : ℕ → SvecBaseWr.In)

/-- The paths on the carrier. -/
abbrev OnCarrier {α : Type} (p : Script α) (bits : Bool × Bool) (l : List (Access × Word)) (r : α)
    (bits' : Bool × Bool) : Prop := Path (Step d env) Access.reply p bits l r bits'

/-- The accesses name no submap. -/
def Registers (l : List (Access × Word)) : Prop := ∀ access ∈ l, ∀ m, access.1.place ≠ .submap m

variable {d env} {bits bits' : Bool × Bool} {l : List (Access × Word)}

theorem path_ioread32be {off x : Word} : OnCarrier d env (ioread32be off) bits l x bits' ↔
    Gives d env bits ⟨off, 0xf#4, false, 0#32⟩ x ∧ l = [(⟨off, 0xf#4, false, 0#32⟩, x)] ∧ bits' = bits := by
  rw [OnCarrier, ioread32be, path_access]
  constructor
  · rintro ⟨y, bits₁, l₁, ⟨hgives, rfl⟩, hret, rfl⟩
    obtain ⟨rfl, rfl, rfl⟩ := path_ret.mp hret
    exact ⟨hgives rfl, rfl, rfl⟩
  · rintro ⟨hgives, rfl, rfl⟩
    refine ⟨x, bits', [], ⟨fun _ => hgives, ?_⟩, path_ret.mpr ⟨rfl, rfl, rfl⟩, rfl⟩
    exact (if_neg fun both => absurd both.1 Bool.false_ne_true).symm

theorem path_iowrite32be {v off : Word} {r : Unit} : OnCarrier d env (iowrite32be v off) bits l r bits' ↔
    ∃ x, l = [(⟨off, 0xf#4, true, v⟩, x)] ∧ bits' = Access.resets ⟨off, 0xf#4, true, v⟩ bits := by
  rw [OnCarrier, iowrite32be, path_access]
  constructor
  · rintro ⟨y, bits₁, l₁, ⟨-, rfl⟩, hret, rfl⟩
    obtain ⟨rfl, -, rfl⟩ := path_ret.mp hret
    exact ⟨y, rfl, rfl⟩
  · rintro ⟨x, rfl, rfl⟩
    exact ⟨x, _, [], ⟨fun hno => absurd hno Bool.noConfusion, rfl⟩, path_ret.mpr ⟨rfl, rfl, rfl⟩, rfl⟩

theorem Registers.append {l l' : List (Access × Word)} (h : Registers l) (h' : Registers l') : Registers (l ++ l') := by
  intro access hmem
  rcases List.mem_append.mp hmem with hmem | hmem
  · exact h access hmem
  · exact h' access hmem

theorem registers_one {a : Access} {x : Word} {p : Place} (hp : a.place = p) (h : ∀ m, p ≠ .submap m) :
    Registers [(a, x)] := by
  intro access hmem
  obtain rfl := List.mem_singleton.mp hmem
  exact hp ▸ h

/-- No submap sees anything of such accesses. -/
theorem Registers.transfers (h : Registers l) (m : Submap) :
    l.flatMap (fun access => access.1.transfer access.2 m) = [] := by
  rw [List.flatMap_eq_nil_iff]
  exact fun access hmem => if_neg (h access hmem m)

/-- An address below the reach of a script names the same place whatever the access is. -/
theorem place_of {off : Word} {p : Place} (h : decode (off.extractLsb' 2 12) = p) (we : Bool) (v : Word) :
    Access.place ⟨off, 0xf#4, we, v⟩ = p := h

/-! ### The reset of the application -/

theorem decode_csrResets : decode (csrResets.extractLsb' 2 12) = .csrResets := by decide

/-- The word with the application's bit put in leaves the global bit as it was. -/
theorem reset_word (bits : Bool × Bool) (val : Bool) :
    let w := if val then resetsWord bits ||| csrResetsApp else resetsWord bits &&& ~~~csrResetsApp
    (w.getLsbD 0, w.getLsbD 1) = (bits.1, val) := by
  obtain ⟨g, a⟩ := bits
  cases g <;> cases a <;> cases val <;> decide

theorem appReset_path {val : Bool} {r : Unit} (h : OnCarrier d env (svecFpgaAppReset val) bits l r bits') :
    bits' = (bits.1, val) ∧ Registers l := by
  obtain ⟨x, bits₁, l₁, l₂, hread, hwrite, rfl⟩ := path_bind.mp h
  obtain ⟨hx, rfl, rfl⟩ := path_ioread32be.mp hread
  obtain ⟨y, rfl, rfl⟩ := path_iowrite32be.mp hwrite
  have hx : x = resetsWord bits₁ := hx
  subst hx
  have hplace := place_of decode_csrResets
  refine ⟨?_, Registers.append (registers_one (hplace _ _) (by simp)) (registers_one (hplace _ _) (by simp))⟩
  rw [Access.resets, if_pos ⟨rfl, hplace _ _⟩]
  exact reset_word bits₁ val

/-- In between the application is in reset. -/
theorem appRestart_path {r : Unit} (h : OnCarrier d env svecFpgaAppRestart bits l r bits') :
    bits' = (bits.1, false) ∧ Registers l ∧
      ∃ l₁ l₂, l = l₁ ++ l₂ ∧ l₁.foldl (fun bits access => access.1.resets bits) bits = (bits.1, true) := by
  obtain ⟨_, bits₁, l₁, l₂, hset, hclear, rfl⟩ := path_bind.mp h
  have hpulse := path_resets hset
  obtain ⟨rfl, hl₁⟩ := appReset_path hset
  obtain ⟨rfl, hl₂⟩ := appReset_path hclear
  exact ⟨rfl, hl₁.append hl₂, l₁, l₂, rfl, hpulse⟩

/-- A register is read. -/
theorem register_path {α : Type} {off : Word} {f : Word → α} {p : Place} (hplace : decode (off.extractLsb' 2 12) = p)
    (hp : ∀ m, p ≠ .submap m) {r : α} (h : OnCarrier d env (ioread32be off >>= fun x => pure (f x)) bits l r bits') :
    ∃ x, Gives d env bits ⟨off, 0xf#4, false, 0#32⟩ x ∧ r = f x ∧ bits' = bits ∧ Registers l := by
  obtain ⟨x, bits₁, l₁, l₂, hread, hpure, rfl⟩ := path_bind.mp h
  obtain ⟨hx, rfl, rfl⟩ := path_ioread32be.mp hread
  obtain ⟨rfl, rfl, rfl⟩ := path_pure.mp hpure
  exact ⟨x, hx, rfl, rfl, registers_one (place_of hplace _ _) hp⟩

/-! ### The metadata -/

theorem metadata_address : ∀ i : Fin 16, decode ((metaBase + BitVec.ofNat 32 (i * 4)).extractLsb' 2 12) = .metadata ∧
    (metaBase + BitVec.ofNat 32 (i * 4)).extractLsb' 2 4 = BitVec.ofNat 4 i := by decide

theorem metadataLoop_path {n i : ℕ} (hi : i + n ≤ 16) {metaTmp cells : ℕ → Word}
    (h : OnCarrier d env (metadataLoop metaBase n i metaTmp) bits l cells bits') :
    bits' = bits ∧ Registers l ∧ ∀ j, cells j =
      if i ≤ j ∧ j < i + n then pMetadata d.generics d.sourceid (BitVec.ofNat 4 j) else metaTmp j := by
  induction n generalizing i metaTmp l bits with
  | zero =>
    obtain ⟨rfl, rfl, rfl⟩ := path_pure.mp h
    refine ⟨rfl, fun access hmem => absurd hmem List.not_mem_nil, fun j => ?_⟩
    rw [if_neg (by omega)]
  | succ n ih =>
    obtain ⟨x, bits₁, l₁, l₂, hread, hrest, rfl⟩ := path_bind.mp h
    obtain ⟨hx, rfl, rfl⟩ := path_ioread32be.mp hread
    obtain ⟨rfl, hl₂, hcells⟩ := ih (by omega) hrest
    obtain ⟨hplace, hadr⟩ := metadata_address ⟨i, by omega⟩
    have hword : x = pMetadata d.generics d.sourceid (BitVec.ofNat 4 i) := by
      rw [Gives, place_of hplace] at hx
      exact hx.trans (congrArg _ hadr)
    refine ⟨rfl, Registers.append (registers_one (place_of hplace _ _) (by simp)) hl₂, fun j => ?_⟩
    rw [hcells]
    by_cases hj : j = i
    · subst hj
      rw [if_neg (by omega), if_pos (by omega), Function.update_self, hword]
    · rw [Function.update_of_ne hj]
      exact if_congr (by omega) rfl rfl

/-- The driver gets the words of the ROM. -/
theorem metadataGet_path {metaTmp : ℕ → Word} {m : SvecMetaId}
    (h : OnCarrier d env (svecFpgaMetadataGet metaBase metaTmp) bits l m bits') :
    bits' = bits ∧ Registers l ∧ ∀ f : Member, m.get f = pMetadata d.generics d.sourceid (BitVec.ofNat 4 f.cell) := by
  obtain ⟨cells, bits₁, l₁, l₂, hloop, hpure, rfl⟩ := path_bind.mp h
  obtain ⟨rfl, rfl, rfl⟩ := path_pure.mp hpure
  obtain ⟨rfl, hl, hcells⟩ := metadataLoop_path (by decide) hloop
  refine ⟨rfl, by rwa [List.append_nil], fun f => ?_⟩
  have hcell := f.cell_lt
  rw [get_ofCells, hcells, if_pos (by omega)]

/-- The driver takes a carrier of its own major version 3, and of minor version 0. -/
def Takes (b : Build) (versionIgnore : Bool) : Prop :=
  versionIgnore = true ∨
    b.svecVersionDrv >>> 24 &&& 0xff#32 = 3#32 ∧ b.svecVersionDrv >>> 16 &&& 0xff#32 = 0#32

instance (b : Build) (versionIgnore : Bool) : Decidable (Takes b versionIgnore) :=
  inferInstanceAs (Decidable (_ ∨ _))

theorem isValid_iff (b : Build) (versionIgnore : Bool) (cap : Word) :
    svecFpgaIsValid b versionIgnore ⟨0x000010dc#32, 0x53564543#32, 0x03000000#32, 0xfffe0000#32, cap⟩ = true ↔
      Takes b versionIgnore := by
  have hbom : 0xfffe0000#32 &&& svecMetaBomEndMask = svecMetaBomBe := by decide
  have hver : 0xfffe0000#32 &&& svecMetaBomVerMask = 0#32 := by decide
  have hids : ¬ (0x000010dc#32 ≠ svecMetaVendorId ∨ 0x53564543#32 ≠ svecMetaDeviceId) := by decide
  have hmajor : (0x03000000#32 >>> 24 &&& 0xff#32) = 3#32 := by decide
  have hminor : (0x03000000#32 >>> 16 &&& 0xff#32) = 0#32 := by decide
  have hpos : ∀ w : Word, (0#32).ult w = false ↔ w = 0#32 := by
    intro w
    simp [BitVec.ult, ← BitVec.toNat_inj]
  simp only [svecFpgaIsValid, hbom, hver, hids, ne_eq, not_true_eq_false, if_false, svecFpgaIsValidVersion, hmajor,
    hminor, Takes]
  generalize b.svecVersionDrv >>> 16 &&& 0xff#32 = minor
  generalize b.svecVersionDrv >>> 24 &&& 0xff#32 = major
  cases versionIgnore with
  | true => simp
  | false =>
    by_cases hmaj : major = 3#32
    · simp [hmaj, hpos]
    · simp [hmaj, Ne.symm hmaj]

/-- The capability for the thermometer says that it is there. -/
theorem cap_therm (g : Generics) (sourceid : BitVec 128) :
    (pMetadata g sourceid (BitVec.ofNat 4 Member.cap.cell)).getLsbD metaCapThermBit = present g .thermId := by
  obtain ⟨vic, onewire, spi, wr, ddr4, ddr5⟩ := g
  show BitVec.getLsbD ((BitVec.ofBoolListLE [vic, onewire && !wr, spi, wr, true, ddr4, ddr5]).setWidth 32) 1 =
    (onewire && !wr)
  rw [BitVec.getLsbD_setWidth, BitVec.getLsbD_ofBoolListLE]
  rfl

/-- A bit of a word. -/
theorem and_twoPow_ne_zero {w : ℕ} (x : BitVec w) (n : ℕ) : x &&& BitVec.twoPow w n ≠ 0#w ↔ x.getLsbD n = true := by
  rw [BitVec.and_twoPow]
  constructor
  · intro h
    by_contra hbit
    exact h (if_neg hbit)
  · intro hbit
    rw [if_pos hbit]
    intro hzero
    have hset := congrArg (BitVec.getLsbD · n) hzero
    simp [BitVec.lt_of_getLsbD hbit] at hset

/-- Of the presence lines the driver looks at those of the slots. -/
theorem presence_bit (x : Word) (slot : ℕ) :
    ((x.setWidth 8 &&& (BitVec.ofNat 8 (2 ^ svecFmcSlots) - 1#8)).setWidth 32).getLsbD slot = true ↔
      (decide (slot < svecFmcSlots) && x.getLsbD slot) = true := by
  have hmask : ∀ k : Fin 8, (BitVec.ofNat 8 (2 ^ svecFmcSlots) - 1#8).getLsbD k = decide (k.val < svecFmcSlots) := by
    decide
  have hslots : svecFmcSlots ≤ 8 := by decide
  rw [BitVec.getLsbD_setWidth, BitVec.getLsbD_and, BitVec.getLsbD_setWidth]
  by_cases hslot : slot < 8
  · rw [hmask ⟨slot, hslot⟩]
    simp [hslot, show slot < 32 by omega, Bool.and_comm]
  · simp [hslot, show ¬ slot < svecFmcSlots by omega]

/-! ### The requests -/

/-- The reset bits after a request. -/
def Request.after (bits : Bool × Bool) : Request → Bool × Bool
  | .restart => (bits.1, false)
  | .resetAppStore (.ok val) _ => (bits.1, val ≠ 0)
  | _ => bits

section Requests

variable (d env)

/-- What a request gets while the reset bits are `bits`, by the accesses `l`. -/
def Request.Gets (bits : Bool × Bool) (l : List (Access × Word)) : Request → Answer → Prop
  | .restart, a => a = .done ∧ Registers l ∧
    ∃ l₁ l₂, l = l₁ ++ l₂ ∧ l₁.foldl (fun bits access => access.1.resets bits) bits = (bits.1, true)
  | .resetAppShow, a => a = .text (if bits.2 then "1\n".toList else "0\n".toList) ∧ Registers l
  | .resetAppStore (.ok _) count, a => a = .number count ∧ Registers l
  | .resetAppStore (.error err) _, a => a = .number err ∧ l = []
  | .isPresent slot, a =>
    (∃ t, a = .yes (decide (slot < svecFmcSlots) && (env t).fmcPresence.getLsbD slot)) ∧ Registers l
  | .pcbRevShow, a =>
    (∃ t, a = .text ("0x".toList ++ hex ((env t).pcbrevI.setWidth 32) ++ "\n".toList)) ∧ Registers l
  | .applicationOffsetShow, a => a = .text ("0x".toList ++ hex d.gAppOffset ++ "\n".toList) ∧ Registers l
  | .temperatureShow, a =>
    if present d.generics .thermId then
      ∃ temp, l = [(⟨thermTemp, 0xf#4, false, 0#32⟩, temp)] ∧ a = .text (temperatureText temp)
    else l = [] ∧ a = .text "-.- C\n".toList
  | .serialNumberShow, a =>
    if present d.generics .thermId then
      ∃ msb lsb, l = [(⟨thermSeridMsb, 0xf#4, false, 0#32⟩, msb), (⟨thermSeridLsb, 0xf#4, false, 0#32⟩, lsb)] ∧
        a = .text ("0x".toList ++ hex8 msb ++ hex8 lsb ++ "\n".toList)
    else l = [] ∧ a = .text "0x----------------\n".toList

/-- The requests are answered one after the other. -/
inductive Served : Bool × Bool → List Request → List Answer → List (Access × Word) → Prop
  | nil (bits : Bool × Bool) : Served bits [] [] []
  | cons {bits : Bool × Bool} {q : Request} {qs : List Request} {a : Answer} {as : List Answer}
      {l l' : List (Access × Word)} (got : q.Gets d env bits l a) (rest : Served (q.after bits) qs as l') :
      Served bits (q :: qs) (a :: as) (l ++ l')

variable {d env}

theorem serve_path {cap : Word} (hcap : cap.getLsbD metaCapThermBit = present d.generics .thermId) {q : Request}
    {a : Answer} (h : OnCarrier d env (serve cap q) bits l a bits') :
    q.Gets d env bits l a ∧ bits' = q.after bits := by
  cases q with
  | restart =>
    obtain ⟨_, bits₁, l₁, l₂, hrestart, hpure, rfl⟩ := path_bind.mp h
    obtain ⟨rfl, rfl, rfl⟩ := path_pure.mp hpure
    obtain ⟨rfl, hl⟩ := appRestart_path hrestart
    rw [List.append_nil]
    exact ⟨⟨rfl, hl⟩, rfl⟩
  | resetAppShow =>
    obtain ⟨s, hs, rfl⟩ := path_map.mp h
    obtain ⟨x, hx, rfl, rfl, hl⟩ := register_path decode_csrResets (by simp) hs
    have hx : x = resetsWord bits' := hx
    subst hx
    refine ⟨⟨congrArg Answer.text ?_, hl⟩, rfl⟩
    obtain ⟨g, a⟩ := bits'
    cases g <;> cases a <;> decide
  | resetAppStore kstrtol count =>
    obtain ⟨n, hn, rfl⟩ := path_map.mp h
    cases kstrtol with
    | error err =>
      obtain ⟨rfl, rfl, rfl⟩ := path_pure.mp hn
      exact ⟨⟨rfl, rfl⟩, rfl⟩
    | ok val =>
      obtain ⟨_, bits₁, l₁, l₂, hreset, hpure, rfl⟩ := path_bind.mp hn
      obtain ⟨rfl, rfl, rfl⟩ := path_pure.mp hpure
      obtain ⟨rfl, hl⟩ := appReset_path hreset
      exact ⟨⟨rfl, by rwa [List.append_nil]⟩, rfl⟩
  | isPresent slot =>
    obtain ⟨s, hs, rfl⟩ := path_map.mp h
    obtain ⟨presence, bits₁, l₁, l₂, hpresence, hpure, rfl⟩ := path_bind.mp hs
    obtain ⟨rfl, rfl, rfl⟩ := path_pure.mp hpure
    obtain ⟨x, ⟨t, hx⟩, rfl, rfl, hl⟩ := register_path (p := .csrFmcPresence) (by decide) (by simp) hpresence
    refine ⟨⟨⟨t, congrArg Answer.yes ?_⟩, by rwa [List.append_nil]⟩, rfl⟩
    rw [hx, Bool.eq_iff_iff, decide_eq_true_iff, Nat.add_sub_cancel, and_twoPow_ne_zero, presence_bit]
  | pcbRevShow =>
    obtain ⟨s, hs, rfl⟩ := path_map.mp h
    obtain ⟨x, ⟨t, hx⟩, rfl, rfl, hl⟩ := register_path (p := .csrPcbRev) (by decide) (by simp) hs
    exact ⟨⟨⟨t, by rw [hx]⟩, hl⟩, rfl⟩
  | applicationOffsetShow =>
    obtain ⟨s, hs, rfl⟩ := path_map.mp h
    obtain ⟨x, hx, rfl, rfl, hl⟩ := register_path (p := .csrAppOffset) (by decide) (by simp) hs
    have hx : x = d.gAppOffset := hx
    exact ⟨⟨by rw [hx], hl⟩, rfl⟩
  | temperatureShow =>
    obtain ⟨s, hs, rfl⟩ := path_map.mp h
    rw [temperatureShow, hcap] at hs
    by_cases hthere : present d.generics .thermId = true
    · rw [if_pos hthere] at hs
      obtain ⟨temp, bits₁, l₁, l₂, hread, hpure, rfl⟩ := path_bind.mp hs
      obtain ⟨rfl, rfl, rfl⟩ := path_pure.mp hpure
      obtain ⟨-, rfl, rfl⟩ := path_ioread32be.mp hread
      refine ⟨?_, rfl⟩
      simp only [Request.Gets, if_pos hthere]
      exact ⟨temp, rfl, rfl⟩
    · rw [if_neg hthere] at hs
      obtain ⟨rfl, rfl, rfl⟩ := path_pure.mp hs
      refine ⟨?_, rfl⟩
      simp only [Request.Gets, if_neg hthere, and_self]
  | serialNumberShow =>
    obtain ⟨s, hs, rfl⟩ := path_map.mp h
    rw [serialNumberShow, hcap] at hs
    by_cases hthere : present d.generics .thermId = true
    · rw [if_pos hthere] at hs
      obtain ⟨msb, bits₁, l₁, l₂, hmsb, hrest, rfl⟩ := path_bind.mp hs
      obtain ⟨lsb, bits₂, l₃, l₄, hlsb, hpure, rfl⟩ := path_bind.mp hrest
      obtain ⟨rfl, rfl, rfl⟩ := path_pure.mp hpure
      obtain ⟨-, rfl, rfl⟩ := path_ioread32be.mp hmsb
      obtain ⟨-, rfl, rfl⟩ := path_ioread32be.mp hlsb
      refine ⟨?_, rfl⟩
      simp only [Request.Gets, if_pos hthere]
      exact ⟨msb, lsb, rfl, rfl⟩
    · rw [if_neg hthere] at hs
      obtain ⟨rfl, rfl, rfl⟩ := path_pure.mp hs
      refine ⟨?_, rfl⟩
      simp only [Request.Gets, if_neg hthere, and_self]

theorem serveAll_path {cap : Word} (hcap : cap.getLsbD metaCapThermBit = present d.generics .thermId)
    {qs : List Request} {as : List Answer} (h : OnCarrier d env (serveAll cap qs) bits l as bits') :
    Served d env bits qs as l ∧ bits' = qs.foldl Request.after bits := by
  induction qs generalizing bits l as with
  | nil =>
    obtain ⟨rfl, rfl, rfl⟩ := path_pure.mp h
    exact ⟨.nil _, rfl⟩
  | cons q qs ih =>
    obtain ⟨a, bits₁, l₁, l₂, hq, hqs, rfl⟩ := path_bind.mp h
    obtain ⟨rest, bits₂, l₃, l₄, hrest, hpure, rfl⟩ := path_bind.mp hqs
    obtain ⟨rfl, rfl, rfl⟩ := path_pure.mp hpure
    obtain ⟨hgets, rfl⟩ := serve_path hcap hq
    obtain ⟨hserved, rfl⟩ := ih hrest
    rw [List.append_nil]
    exact ⟨.cons hgets hserved, rfl⟩

/-- The only submap that a request names is the thermometer, and only if it is there. -/
theorem Request.Gets.place {q : Request} {a : Answer} (h : q.Gets d env bits l a) {access : Access × Word}
    (hmem : access ∈ l) {m : Submap} (hplace : access.1.place = .submap m) :
    m = .thermId ∧ present d.generics .thermId = true := by
  have htherm : ∀ off : Word, decode (off.extractLsb' 2 12) = .submap .thermId →
      access.1 = ⟨off, 0xf#4, false, 0#32⟩ → m = .thermId := by
    intro off hoff haccess
    rw [haccess, place_of hoff] at hplace
    injection hplace with hplace
    exact hplace.symm
  cases q with
  | restart => exact absurd hplace (h.2.1 access hmem m)
  | resetAppShow | isPresent slot | pcbRevShow | applicationOffsetShow =>
    exact absurd hplace (h.2 access hmem m)
  | resetAppStore kstrtol count =>
    cases kstrtol with
    | error err => exact absurd (h.2 ▸ hmem) List.not_mem_nil
    | ok val => exact absurd hplace (h.2 access hmem m)
  | temperatureShow =>
    by_cases hthere : present d.generics .thermId = true
    · simp only [Request.Gets, if_pos hthere] at h
      obtain ⟨temp, rfl, -⟩ := h
      obtain rfl := List.mem_singleton.mp hmem
      exact ⟨htherm thermTemp (by decide) rfl, hthere⟩
    · simp only [Request.Gets, if_neg hthere] at h
      exact absurd (h.1 ▸ hmem) List.not_mem_nil
  | serialNumberShow =>
    by_cases hthere : present d.generics .thermId = true
    · simp only [Request.Gets, if_pos hthere] at h
      obtain ⟨msb, lsb, rfl, -⟩ := h
      obtain rfl | rfl := List.mem_pair.mp hmem
      · exact ⟨htherm thermSeridMsb (by decide) rfl, hthere⟩
      · exact ⟨htherm thermSeridLsb (by decide) rfl, hthere⟩
    · simp only [Request.Gets, if_neg hthere] at h
      exact absurd (h.1 ▸ hmem) List.not_mem_nil

theorem Served.place {qs : List Request} {as : List Answer} (h : Served d env bits qs as l) :
    ∀ access ∈ l, ∀ m, access.1.place = .submap m → m = .thermId ∧ present d.generics .thermId = true := by
  induction h with
  | nil bits => exact fun access hmem => absurd hmem List.not_mem_nil
  | cons got _ ih =>
    intro access hmem m hplace
    rcases List.mem_append.mp hmem with hmem | hmem
    · exact got.place hmem hplace
    · exact ih access hmem m hplace

end Requests

/-- The session: the words of the ROM, and the answers if the driver takes the carrier. -/
theorem session_path {b : Build} {versionIgnore : Bool} {metaTmp : ℕ → Word} {qs : List Request}
    {out : SvecMetaId × Option (List Answer)}
    (h : OnCarrier d env (session b versionIgnore metaTmp qs) bits l out bits') :
    (∀ f : Member, out.1.get f = pMetadata d.generics d.sourceid (BitVec.ofNat 4 f.cell)) ∧
      ∃ l₁ l₂, l = l₁ ++ l₂ ∧ Registers l₁ ∧
        if Takes b versionIgnore then ∃ as, out.2 = some as ∧ Served d env bits qs as l₂ ∧
          bits' = qs.foldl Request.after bits
        else out.2 = none ∧ l₂ = [] ∧ bits' = bits := by
  obtain ⟨m, bits₁, l₁, l₂, hget, hrest, rfl⟩ := path_bind.mp h
  obtain ⟨rfl, hl₁, hm⟩ := metadataGet_path hget
  have hcap : m.cap.getLsbD metaCapThermBit = present d.generics .thermId :=
    (congrArg (BitVec.getLsbD · metaCapThermBit) (hm .cap)).trans (cap_therm d.generics d.sourceid)
  have hvalid : svecFpgaIsValid b versionIgnore ⟨m.vendor, m.device, m.version, m.bom, m.cap⟩ = true ↔
      Takes b versionIgnore := by
    rw [show m.vendor = _ from hm .vendor, show m.device = _ from hm .device, show m.version = _ from hm .version,
      show m.bom = _ from hm .bom]
    exact isValid_iff b versionIgnore m.cap
  by_cases htakes : Takes b versionIgnore
  · rw [if_pos (hvalid.mpr htakes)] at hrest
    obtain ⟨as, bits₂, l₃, l₄, has, hpure, rfl⟩ := path_bind.mp hrest
    obtain ⟨rfl, rfl, rfl⟩ := path_pure.mp hpure
    obtain ⟨hserved, hbits⟩ := serveAll_path hcap has
    refine ⟨hm, l₁, l₃, by rw [List.append_nil], hl₁, ?_⟩
    rw [if_pos htakes]
    exact ⟨as, rfl, hserved, hbits⟩
  · rw [if_neg fun hyes => htakes (hvalid.mp hyes)] at hrest
    obtain ⟨rfl, rfl, rfl⟩ := path_pure.mp hrest
    refine ⟨hm, l₁, [], rfl, hl₁, ?_⟩
    rw [if_neg htakes]
    exact ⟨rfl, rfl, rfl⟩

end Specs

/-! ## On the carrier -/

/-- The driver's attributes on the carrier: at whatever pace its session is run, it comes to its
end with the words of the ROM as its metadata.  If it takes the carrier each request gets its
answer, and the reset bits are as the requests leave them.  No request reaches a submap but those
for the thermometer, and they do only if the thermometer is in the design. -/
theorem attributes_on_carrier {d : Design} {env : ℕ → SvecBaseWr.In} {card : Hdl.Carrier.Regs} {b : Build}
    {versionIgnore : Bool} {metaTmp : ℕ → Word} {qs : List Request}
    {q : Script (SvecMetaId × Option (List Answer))} (hpaced : Paced (session b versionIgnore metaTmp qs) q)
    (hidle : At .idle card.wr.base) (hlive : Answering d (start q card) env) :
    ∃ l₁ l₂ m answers u, Carrier.Runs d (start q card) env q 0 (l₁ ++ l₂) (m, answers) u ∧
      (hostAt d (start q card) env u).script = .ret (m, answers) ∧
      (∀ f : Member, m.get f = pMetadata d.generics d.sourceid (BitVec.ofNat 4 f.cell)) ∧
      (if Takes b versionIgnore then
        ∃ as, answers = some as ∧ Served d env (viewAt d (start q card) env 0).resets qs as l₂ ∧
          (viewAt d (start q card) env u).resets = qs.foldl Request.after (viewAt d (start q card) env 0).resets
      else answers = none ∧ l₂ = [] ∧
        (viewAt d (start q card) env u).resets = (viewAt d (start q card) env 0).resets) ∧
      (∀ s, collect (transferAt d (start q card) env s) u = l₂.flatMap fun access => access.1.transfer access.2 s) ∧
      ∀ access ∈ l₂, ∀ s, access.1.place = .submap s → s = .thermId ∧ present d.generics .thermId = true := by
  obtain ⟨l, ⟨m, answers⟩, u, hruns, hend, hpath, hseen⟩ := exists_path hpaced hidle hlive
  obtain ⟨hm, l₁, l₂, rfl, hregisters, houtcome⟩ := session_path hpath
  refine ⟨l₁, l₂, m, answers, u, hruns, hend, hm, houtcome, fun s => ?_, ?_⟩
  · rw [hseen, List.flatMap_append, hregisters.transfers, List.nil_append]
  · by_cases htakes : Takes b versionIgnore
    · rw [if_pos htakes] at houtcome
      obtain ⟨as, -, hserved, -⟩ := houtcome
      exact hserved.place
    · rw [if_neg htakes] at houtcome
      obtain ⟨-, rfl, -⟩ := houtcome
      exact fun access hmem => absurd hmem List.not_mem_nil

/-! ### Without pauses -/

theorem busy_ioread32be (off : Word) : Busy (ioread32be off) := fun x => busy_pure (x.getD 0#32)

theorem busy_iowrite32be (v off : Word) : Busy (iowrite32be v off) := fun _ => busy_pure ()

theorem busy_appReset (val : Bool) : Busy (svecFpgaAppReset val) :=
  (busy_ioread32be _).bind fun _ => busy_iowrite32be _ _

theorem busy_metadataLoop (fpga : Word) (n i : ℕ) (metaTmp : ℕ → Word) : Busy (metadataLoop fpga n i metaTmp) := by
  induction n generalizing i metaTmp with
  | zero => exact busy_pure _
  | succ n ih => exact (busy_ioread32be _).bind fun _ => ih _ _

theorem busy_serve (cap : Word) (q : Request) : Busy (serve cap q) := by
  have hread : ∀ {α : Type} (off : Word) (f : Word → α), Busy (ioread32be off >>= fun x => pure (f x)) :=
    fun off f => (busy_ioread32be off).bind fun x => busy_pure (f x)
  cases q with
  | restart => exact ((busy_appReset true).bind fun _ => busy_appReset false).bind fun _ => busy_pure _
  | resetAppShow => exact (hread _ _).map _
  | resetAppStore kstrtol count =>
    cases kstrtol with
    | error err => exact busy_pure _
    | ok val => exact ((busy_appReset _).bind fun _ => busy_pure _).map _
  | isPresent slot => exact ((hread _ _).bind fun _ => busy_pure _).map _
  | pcbRevShow => exact (hread _ _).map _
  | applicationOffsetShow => exact (hread _ _).map _
  | temperatureShow =>
    refine Busy.map _ ?_
    unfold temperatureShow
    split
    · exact hread _ _
    · exact busy_pure _
  | serialNumberShow =>
    refine Busy.map _ ?_
    unfold serialNumberShow
    split
    · exact (busy_ioread32be _).bind fun _ => hread _ _
    · exact busy_pure _

theorem busy_serveAll (cap : Word) (qs : List Request) : Busy (serveAll cap qs) := by
  induction qs with
  | nil => exact busy_pure _
  | cons q qs ih => exact (busy_serve cap q).bind fun _ => ih.bind fun _ => busy_pure _

/-- A session may be run without a pause. -/
theorem busy_session (b : Build) (versionIgnore : Bool) (metaTmp : ℕ → Word) (qs : List Request) :
    Busy (session b versionIgnore metaTmp qs) := by
  refine ((busy_metadataLoop _ _ _ _).bind fun _ => busy_pure _).bind fun m => ?_
  split
  · exact (busy_serveAll _ _).bind fun _ => busy_pure _
  · exact busy_pure _

/-- The application is put into reset, and the temperature is read. -/
def resetAndMeasure : List Request := [.resetAppStore (.ok 1) 2, .resetAppShow, .temperatureShow]

/-- A design with a thermometer. -/
def onewireDesign : Design := ⟨⟨false, true, false, false, false, false⟩, 0#32, 0#128, []⟩

theorem attributes_on_carrier_resetAndMeasure :
    ∃ m temp u,
      (hostAt onewireDesign (start (session ⟨0, 0x03000000#32⟩ false (fun _ => 0#32) resetAndMeasure) idleCard)
        everyOther u).script =
          .ret (m, some [.number 2, .text "1\n".toList, .text (temperatureText temp)]) ∧
      collect (transferAt onewireDesign
        (start (session ⟨0, 0x03000000#32⟩ false (fun _ => 0#32) resetAndMeasure) idleCard) everyOther .thermId) u =
          [⟨false, 0x08#32, 0xf#4, 0#32, temp⟩] ∧
      m.vendor = 0x000010dc#32 := by
  obtain ⟨l₁, l₂, m, answers, u, -, hend, hm, houtcome, hseen, -⟩ :=
    attributes_on_carrier (busy_session ⟨0, 0x03000000#32⟩ false (fun _ => 0#32) resetAndMeasure).paced
      idle_idleCard (everyOther_answers onewireDesign _)
  rw [if_pos (by decide)] at houtcome
  obtain ⟨as, rfl, hserved, -⟩ := houtcome
  cases hserved with
  | cons hstore hserved =>
    cases hserved with
    | cons hshow hserved =>
      cases hserved with
      | cons htemp hserved =>
        cases hserved
        obtain ⟨rfl, hstored⟩ := hstore
        obtain ⟨rfl, hshown⟩ := hshow
        simp only [Request.Gets, if_pos (show present onewireDesign.generics .thermId = true by decide)] at htemp
        obtain ⟨temp, rfl, rfl⟩ := htemp
        have htherm : Access.transfer ⟨thermTemp, 0xf#4, false, 0#32⟩ temp .thermId =
            [⟨false, 0x08#32, 0xf#4, 0#32, temp⟩] := if_pos (by decide)
        refine ⟨m, temp, u, hend, ?_, hm .vendor⟩
        rw [hseen, List.flatMap_append, List.flatMap_append, hstored.transfers, hshown.transfers]
        simpa using htherm

end Svec.Host.Attributes
