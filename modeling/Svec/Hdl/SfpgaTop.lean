/-
  Hdl/SfpgaTop.lean --- the system FPGA, `svec_sfpga_top.vhd`.

  The top level joins the VME slave to the bootloader core and decides whether the
  card answers on the bus.  The application FPGA and the bootloader share the bus,
  so the bootloader is enabled only after PROG_B has erased the former.

  Left out are the PLL, the reset generator (`rstN` is its output), the reset of
  the clock distributor and the LEDs; the bus signals arrive as `mini_vme` samples
  them.
-/
import Svec.Hdl.Bootloader

set_option autoImplicit false

namespace Svec.Hdl

open Svec.Data Svec.Sync

/-- The input ports of `gc_extend_pulse`. -/
structure ExtendIn where
  rstN : Bool
  pulse : Bool
  deriving DecidableEq, Repr, Inhabited

/-- `gc_extend_pulse`, not part of this repository: the output is high for `width` cycles
after each input pulse, and low in reset. -/
structure ExtendPulse (width : ℕ) extends Component ExtendIn Bool where
  /-- How many cycles the output stays high from here. -/
  remaining : State → ℕ
  out_eq : ∀ s i, out s i = (i.rstN && decide (0 < remaining s))
  remaining_step : ∀ s i, remaining (step s i) =
    if !i.rstN then 0 else if i.pulse then width else remaining s - 1

/-- The contract is met by a down counter. -/
def countdown (width : ℕ) : ExtendPulse width where
  State := ℕ
  step s i := if !i.rstN then 0 else if i.pulse then width else s - 1
  out s i := i.rstN && decide (0 < s)
  remaining s := s
  out_eq _ _ := rfl
  remaining_step _ _ := rfl

namespace SfpgaTop

/-- `g_width` of `U_Extend_Erase_Pulse`. -/
def cEraseWidth : ℕ := 100

/-- The library cores of the design. -/
structure Parts where
  boot : Bootloader.Parts
  extend : ExtendPulse cEraseWidth

/-- The parts with the given flash. -/
def standIns (content : BitVec 24 → Byte) : Parts where
  boot := Bootloader.standIns content
  extend := countdown cEraseWidth

/-- The inputs of the design in one cycle: the bus as `mini_vme` sees it, and the pins. -/
structure In where
  rstN : Bool
  asSynced : Bool
  asP1 : Bool
  dsSynced : Bool
  dsP1 : Bool
  writeN : Bool
  vmeLwordN : Bool
  vmeDsN : BitVec 2
  vmeGa : BitVec 6
  vmeAm : BitVec 6
  vmeAddr : BitVec 31
  vmeData : Word
  bootStatus : Bool
  bootDone : Bool
  spiMiso : Bool
  afpgaFlashCsN : Bool
  afpgaFlashSck : Bool
  afpgaFlashMosi : Bool
  deriving DecidableEq, Repr, Inhabited

/-- An idle bus, INIT_B released and DONE low. -/
def In.idle (rstN : Bool) : In where
  rstN := rstN
  asSynced := true
  asP1 := false
  dsSynced := true
  dsP1 := false
  writeN := true
  vmeLwordN := true
  vmeDsN := 3#2
  vmeGa := 0#6
  vmeAm := 0#6
  vmeAddr := 0#31
  vmeData := 0#32
  bootStatus := true
  bootDone := false
  spiMiso := false
  afpgaFlashCsN := true
  afpgaFlashSck := false
  afpgaFlashMosi := false

/-- The registers of the design. -/
structure Regs (P : Parts) where
  vme : MiniVme.Regs
  boot : Bootloader.Regs P.boot
  extend : P.extend.State
  bootEn : Bool
  goPassive : Bool
  eraseAfpgaND0 : Bool

/-- The registers after power-up. -/
def powerUp (content : BitVec 24 → Byte) : Regs (standIns content) where
  vme := default
  boot := Bootloader.powerUp content
  extend := (0 : ℕ)
  bootEn := true
  goPassive := false
  eraseAfpgaND0 := false

/-- The generics of `U_MiniVME`. -/
def vmeGenerics : MiniVme.Generics := ⟨0x70000#21, 0x70020#21⟩

section Signals

variable {P : Parts} (r : Regs P) (i : In)

/-- What `U_MiniVME` reads. -/
def vmeIn : MiniVme.In where
  rstN := i.rstN
  asSynced := i.asSynced
  asP1 := i.asP1
  dsSynced := i.dsSynced
  dsP1 := i.dsP1
  writeN := i.writeN
  vmeLwordN := i.vmeLwordN
  vmeDsN := i.vmeDsN
  vmeGa := i.vmeGa
  vmeAm := i.vmeAm
  vmeAddr := i.vmeAddr
  vmeData := i.vmeData
  masterI := Bootloader.wbOut r.boot

/-- What `U_Bootloader_Core` reads. -/
def bootIn : Bootloader.In where
  rstN := i.rstN
  wb := r.vme.fsm.masterO
  xlxInitB := i.bootStatus
  xlxDone := i.bootDone
  bootEn := r.bootEn
  spiMiso := i.spiMiso

/-- `boot_trig_p1`. -/
def bootTrigP1 : Bool := Bootloader.bootTrigP1 r.boot

/-- `boot_exit_p1`. -/
def bootExitP1 : Bool := Bootloader.bootExitP1 r.boot

/-- `vme_idle`. -/
def vmeIdle : Bool := r.vme.fsm.idleO

/-- The inputs of `U_Extend_Erase_Pulse`. -/
def extendIn : ExtendIn := ⟨i.rstN, bootTrigP1 r⟩

/-- `erase_afpga_n`, high while the application FPGA is erased. -/
def eraseAfpgaN : Bool := P.extend.out r.extend (extendIn r i)

/-- `p_enable_disable_bootloader`: `boot_en`, `go_passive` and `erase_afpga_n_d0`.  The
reset leaves `erase_afpga_n_d0` as it is. -/
def pEnableDisableBootloader : Bool × Bool × Bool :=
  if !i.rstN then (false, false, r.eraseAfpgaND0)
  else if !eraseAfpgaN r i && r.eraseAfpgaND0 then (true, false, eraseAfpgaN r i)
  else if bootExitP1 r then (r.bootEn, true, eraseAfpgaN r i)
  else if r.goPassive && vmeIdle r then (false, false, eraseAfpgaN r i)
  else (r.bootEn, r.goPassive, eraseAfpgaN r i)

/-- One rising edge of `clk_sys`. -/
def step : Regs P where
  vme := MiniVme.step vmeGenerics r.vme (vmeIn r i)
  boot := Bootloader.step r.boot (bootIn r i)
  extend := P.extend.step r.extend (extendIn r i)
  bootEn := (pEnableDisableBootloader r i).1
  goPassive := (pEnableDisableBootloader r i).2.1
  eraseAfpgaND0 := (pEnableDisableBootloader r i).2.2

/-! ## Output ports -/

/-- `boot_config_o`, the PROG_B pin of the application FPGA. -/
def bootConfig : Bool := r.boot.xldr.xlxProgramB && !eraseAfpgaN r i

/-- The flash pins: the application FPGA has them once it is configured. -/
def spiPins : Bootloader.SpiPins :=
  if !i.bootDone then Bootloader.spiPins r.boot (bootIn r i)
  else ⟨i.afpgaFlashCsN, i.afpgaFlashSck, i.afpgaFlashMosi⟩

/-- The drivers of the bus; `none` is the high-impedance state. -/
structure VmeOut where
  dtackN : Option Bool
  dtackOe : Option Bool
  dataDir : Option Bool
  dataOeN : Option Bool
  data : Option Word
  deriving DecidableEq, Repr, Inhabited

/-- When the bootloader is not active it does not drive any outputs. -/
def vmeOut : VmeOut where
  dtackN := if r.bootEn then some r.vme.fsm.vmeDtackN else none
  dtackOe := if r.bootEn then some r.vme.fsm.vmeDtackOe else none
  dataDir := if r.bootEn then some r.vme.fsm.vmeDataDir else none
  dataOeN := if r.bootEn then some r.vme.fsm.vmeDataOeN else none
  data := if r.bootEn && !r.vme.fsm.vmeDataOeN && r.vme.fsm.vmeDataDir then some r.vme.fsm.vmeDataO
    else none

end Signals

/-- The design at every cycle, from the registers `s`. -/
def core {P : Parts} (s : Regs P) (inp : ℕ → In) : ℕ → Regs P := run step s inp

theorem core_succ {P : Parts} (s : Regs P) (inp : ℕ → In) (t : ℕ) :
    core s inp (t + 1) = step (core s inp t) (inp t) := rfl

/-! ## What one step does -/

section Step

variable {P : Parts} (r : Regs P) (i : In)

@[simp] theorem step_vme : (step r i).vme = MiniVme.step vmeGenerics r.vme (vmeIn r i) := rfl
@[simp] theorem step_boot : (step r i).boot = Bootloader.step r.boot (bootIn r i) := rfl
@[simp] theorem step_bootEn : (step r i).bootEn = (pEnableDisableBootloader r i).1 := rfl
@[simp] theorem step_goPassive : (step r i).goPassive = (pEnableDisableBootloader r i).2.1 := rfl
@[simp] theorem step_eraseAfpgaND0 :
    (step r i).eraseAfpgaND0 = (pEnableDisableBootloader r i).2.2 := rfl

/-- The erase pulse lasts `c_ERASE_WIDTH` cycles after the trigger. -/
@[simp] theorem step_remaining : P.extend.remaining (step r i).extend =
    if !i.rstN then 0 else if bootTrigP1 r then cEraseWidth else P.extend.remaining r.extend - 1 :=
  P.extend.remaining_step r.extend (extendIn r i)

theorem eraseAfpgaN_eq : eraseAfpgaN r i = (i.rstN && decide (0 < P.extend.remaining r.extend)) :=
  P.extend.out_eq r.extend (extendIn r i)

variable {r i}

/-- A reset disables the bootloader. -/
theorem bootEn_reset (hr : i.rstN = false) : (step r i).bootEn = false := by
  rw [step_bootEn, pEnableDisableBootloader, hr]
  rfl

/-- The reset leaves the edge detection of the erase pulse alone. -/
theorem eraseAfpgaND0_reset (hr : i.rstN = false) :
    (step r i).eraseAfpgaND0 = r.eraseAfpgaND0 := by
  rw [step_eraseAfpgaND0, pEnableDisableBootloader, hr]
  rfl

/-- Away from the end of an erase pulse a low `boot_en` stays low. -/
theorem bootEn_stays (hen : r.bootEn = false)
    (hedge : i.rstN = true → (!eraseAfpgaN r i && r.eraseAfpgaND0) = false) :
    (step r i).bootEn = false := by
  rw [step_bootEn, pEnableDisableBootloader]
  cases hr : i.rstN with
  | false => rfl
  | true =>
    rw [hedge hr]
    simp only [Bool.not_true, Bool.false_eq_true, if_false]
    (repeat' split) <;> first | rfl | exact hen

theorem eraseAfpgaND0_step (hr : i.rstN = true) :
    (step r i).eraseAfpgaND0 = eraseAfpgaN r i := by
  rw [step_eraseAfpgaND0, pEnableDisableBootloader, hr]
  simp only [Bool.not_true, Bool.false_eq_true, if_false]
  (repeat' split) <;> rfl

end Step

end SfpgaTop

end Svec.Hdl
