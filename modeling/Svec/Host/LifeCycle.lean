/-
  Host/LifeCycle.lean --- the driver of the card over its life, `svec-core.c`.

  The VME bus probes the driver for a card, a new firmware may be written to the
  FPGA, which unregisters the card, and the driver is removed.  What the kernel
  answers in each of these is a parameter of it.  The state is what `svec-core.c`
  holds, the world of `svec-core-fpga.c`, and a record of what was held, and what
  `svec_fpga` was, when the FPGA was loaded and when the device was unregistered.  The
  names of devices are left out.
-/
import Svec.Host.SvecCoreFpga

set_option autoImplicit false

namespace Svec.Host.LifeCycle

open Svec.Data
open Svec.Host.SvecCoreFpga (Build SvecFpga World Answers enomem enodev svecFpgaInit svecFpgaExit)

/-! ## The state -/

/-- What `svec-core.c` acquires.  The last three are locks. -/
inductive Kind where
  | svec | device | mgr | mgrRegistered | dbgDir | mtx | mgrRef | mgrLock
  deriving DecidableEq, Repr

/-- `struct svec_dev`: whether `dbg_dir` is a directory. -/
structure SvecDev where
  dbgDir : Bool

/-- A write to the CR/CSR space, and whether the VME device was enabled. -/
structure CsrWrite where
  offset : ℕ
  value : Word
  enabled : Bool

/-- The FPGA is loaded, or the device of the driver is unregistered. -/
inductive Act where
  | load | unregister
  deriving DecidableEq, Repr

/-- What was held at an act, and what `svec_fpga` was. -/
structure Mark where
  act : Act
  held : List Kind
  svecFpga : Option SvecFpga
  fpga : List SvecCoreFpga.Res

/-- The kernel, for one card. -/
structure Kernel where
  held : List Kind
  fpga : World
  drvdata : Option SvecDev
  vmeEnabled : Bool
  csrWrites : List CsrWrite
  marks : List Mark

/-- Before the first event. -/
def Kernel.fresh : Kernel := ⟨[], .fresh, none, true, [], []⟩

def Kernel.acquire (k : Kernel) (r : Kind) : Kernel := { k with held := r :: k.held }

def Kernel.release (k : Kernel) (r : Kind) : Kernel := { k with held := k.held.erase r }

def Kernel.mark (k : Kernel) (act : Act) : Kernel :=
  { k with marks := k.marks ++ [⟨act, k.held, k.fpga.svecFpga, k.fpga.held⟩] }

/-- `EPERM`. -/
def eperm : Int := 1

/-! ## What the kernel answers -/

/-- The VME bus: how `vme_disable_device` and `vme_enable_device` end, and the interrupt of the
device. -/
structure VmeAnswers where
  disable : Int
  enable : Int
  irqVector : Byte
  irqLevel : Byte

/-- The answers in a call of `svec_probe`. -/
structure ProbeAnswers where
  kzalloc : Bool
  devSetName : Int
  deviceRegister : Int
  vme : VmeAnswers
  fpgaMgrCreate : Bool
  fpgaMgrRegister : Int
  debugfsDir : Bool
  fpga : Answers

/-- The answers in a call of `firmware_name_store`.  Where `fpga_mgr_get` returns NULL there is
no number. -/
structure StoreAnswers where
  fpgaMgrGet : Option Int
  fpgaMgrLock : Int
  fpgaMgrLoad : Int
  deviceRemoveFileSelf : Bool
  vme : VmeAnswers

/-! ## The functions -/

/-- `svec_csr_write`. -/
def svecCsrWrite (value : Byte) (offset : ℕ) (k : Kernel) : Kernel :=
  { k with csrWrites := k.csrWrites ++ [⟨offset - offset % 4, value.setWidth 32, k.vmeEnabled⟩] }

/-- `SVEC_USER_CSR_INT_LEVEL`. -/
def svecUserCsrIntLevel : ℕ := 0x7ff5b
/-- `SVEC_USER_CSR_INT_VECTOR`. -/
def svecUserCsrIntVector : ℕ := 0x7ff5f

/-- `vme_disable_device`. -/
def vmeDisableDevice (a : VmeAnswers) (k : Kernel) : Int × Kernel :=
  (a.disable, if a.disable = 0 then { k with vmeEnabled := false } else k)

/-- `vme_enable_device`. -/
def vmeEnableDevice (a : VmeAnswers) (k : Kernel) : Int × Kernel :=
  (a.enable, if a.enable = 0 then { k with vmeEnabled := true } else k)

/-- `svec_vme_init`. -/
def svecVmeInit (a : VmeAnswers) (k : Kernel) : Int × Kernel :=
  let (err, k) := vmeDisableDevice a k
  if err ≠ 0 then (err, k)
  else
    let k := svecCsrWrite a.irqVector svecUserCsrIntVector k
    let k := svecCsrWrite a.irqLevel svecUserCsrIntLevel k
    vmeEnableDevice a k

/-- `svec_vme_exit`. -/
def svecVmeExit (a : VmeAnswers) (k : Kernel) : Int × Kernel :=
  let (err, k) := vmeDisableDevice a k
  if err ≠ 0 then (err, k)
  else
    let k := svecCsrWrite 0x0#8 svecUserCsrIntVector k
    vmeEnableDevice a k

/-- `svec_dbg_init`.  Its caller does not look at what it returns, and the directory stays where
the file in it cannot be created. -/
def svecDbgInit (a : ProbeAnswers) (k : Kernel) : Kernel :=
  if a.debugfsDir then { k.acquire .dbgDir with drvdata := some ⟨true⟩ }
  else { k with drvdata := some ⟨false⟩ }

/-- `svec_dbg_exit`.  Removing what is no directory does nothing. -/
def svecDbgExit (s : SvecDev) (k : Kernel) : Kernel := if s.dbgDir then k.release .dbgDir else k

/-- `device_unregister`. -/
def deviceUnregister (k : Kernel) : Kernel := (k.mark .unregister).release .device

section Labels

variable (err : Int) (k : Kernel)

/-- `err_name` and `err_dev`. -/
def errName : Int × Kernel := (err, { k.release .svec with drvdata := none })

/-- `err_fpga_new`. -/
def errFpgaNew : Int × Kernel := errName err (deviceUnregister k)

/-- `err_fpga_reg`. -/
def errFpgaReg : Int × Kernel := errFpgaNew err (k.release .mgr)

end Labels

/-- `svec_probe` once the manager is registered.  There is no result where the kernel oopses. -/
def svecProbeRegistered (b : Build) (a : ProbeAnswers) (k : Kernel) : Option (Int × Kernel) :=
  let k := svecDbgInit a k
  match svecFpgaInit b a.fpga k.fpga with
  | (none, _) => none
  | (some _, fpga) => some (0, { k with fpga := fpga })

/-- A new `svec_dev`.  It is zero, so it has no `svec_fpga`. -/
def Kernel.newSvec (k : Kernel) : Kernel :=
  { k.acquire .svec with drvdata := some ⟨false⟩, fpga := { k.fpga with svecFpga := none } }

/-- `svec_probe`. -/
def svecProbe (b : Build) (a : ProbeAnswers) (k : Kernel) : Option (Int × Kernel) :=
  if !a.kzalloc then some (-enomem, k)
  else
    let k := k.newSvec
    if a.devSetName ≠ 0 then some (errName a.devSetName k)
    else if a.deviceRegister ≠ 0 then some (errName a.deviceRegister k)
    else
      let k := (svecVmeInit a.vme (k.acquire .device)).2
      if !a.fpgaMgrCreate then some (errFpgaNew (-eperm) k)
      else
        let k := k.acquire .mgr
        if a.fpgaMgrRegister ≠ 0 then some (errFpgaReg a.fpgaMgrRegister k)
        else svecProbeRegistered b a (k.acquire .mgrRegistered)

/-- `svec_remove`. -/
def svecRemove (a : VmeAnswers) (s : SvecDev) (k : Kernel) : Kernel :=
  let k := { k with fpga := (svecFpgaExit k.fpga).2 }
  let k := svecDbgExit s k
  let k := (k.release .mgrRegistered).release .mgr
  let k := (svecVmeExit a k).2
  let k := (deviceUnregister k).release .svec
  { k with drvdata := none }

/-- `compat_svec_fw_load`. -/
def compatSvecFwLoad (a : StoreAnswers) (k : Kernel) : Int × Kernel :=
  match a.fpgaMgrGet with
  | none => (-enodev, k)
  | some err =>
    if err ≠ 0 then (err, k)
    else
      let k := k.acquire .mgrRef
      if a.fpgaMgrLock ≠ 0 then (a.fpgaMgrLock, k.release .mgrRef)
      else
        let k := (k.acquire .mgrLock).mark .load
        (a.fpgaMgrLoad, (k.release .mgrLock).release .mgrRef)

/-- `svec_fw_load`. -/
def svecFwLoad (a : StoreAnswers) (k : Kernel) : Int × Kernel :=
  let (err, fpga) := svecFpgaExit k.fpga
  let k := { k with fpga := fpga }
  if err ≠ 0 then (err, k)
  else
    let (err, k) := compatSvecFwLoad a (k.acquire .mtx)
    (err, k.release .mtx)

/-- `firmware_name_store`.  `vme_unregister_device` removes the driver from the card. -/
def firmwareNameStore (a : StoreAnswers) (count : Int) (s : SvecDev) (k : Kernel) : Int × Kernel :=
  let (err, k) := svecFwLoad a k
  let k := if a.deviceRemoveFileSelf then svecRemove a.vme s k else k
  (if err ≠ 0 then err else count, k)

/-! ## Runs -/

/-- What happens to the card. -/
inductive Event where
  | probe (a : ProbeAnswers)
  | store (a : StoreAnswers) (count : Int)
  | remove (a : VmeAnswers)

/-- An event.  The bus probes a card that has no driver and removes one that has, and the
attribute is there while the driver is. -/
def step (b : Build) (k : Kernel) : Event → Option Kernel
  | .probe a =>
    match k.drvdata with
    | none => (svecProbe b a k).map Prod.snd
    | some _ => none
  | .store a count => k.drvdata.map fun s => (firmwareNameStore a count s k).2
  | .remove a => k.drvdata.map fun s => svecRemove a s k

/-- The events lead to the state. -/
inductive Reached (b : Build) : List Event → Kernel → Prop
  | fresh : Reached b [] .fresh
  | step {es : List Event} {k k' : Kernel} {e : Event} (before : Reached b es k) (next : step b k e = some k') :
      Reached b (es ++ [e]) k'

/-! ## What is held -/

/-- What the driver holds of a card, the last acquired first. -/
def SvecDev.owned (s : SvecDev) : List Kind :=
  (if s.dbgDir then [.dbgDir] else []) ++ [.mgrRegistered, .mgr, .device, .svec]

/-- What a call of `svec_fpga_init` that fails late does not take back. -/
def Basic (r : SvecCoreFpga.Res) : Prop :=
  r.kind = .debugfs ∨ r.kind = .device ∨ r.kind = .ioremap ∨ r.kind = .allocation

/-- What holds at every act: `svec_fpga` is NULL, of the FPGA's device only lost resources are held,
and the FPGA is loaded under the locks. -/
structure Mark.Sound (m : Mark) (lost : List SvecCoreFpga.Res) : Prop where
  unset : m.svecFpga = none
  fpga : m.fpga <:+ lost
  locked : m.act = .load → [.mgrLock, .mgrRef, .mtx] <+: m.held

/-- `svec-core.c` holds `owned`, and `svec_fpga` leads to all that `svec-core-fpga.c` holds but the
resources `lost`.  The acts of the past were sound, and the VME device was disabled at each write to
its CR/CSR space. -/
structure Holds (owned : List Kind) (k : Kernel) (lost : List SvecCoreFpga.Res) : Prop where
  core : k.held = owned
  fpga : k.fpga.held = k.fpga.svecFpga.elim [] SvecFpga.owned ++ lost
  basic : ∀ r ∈ lost, Basic r
  marks : ∀ m ∈ k.marks, m.Sound lost
  quiet : ∀ c ∈ k.csrWrites, c.enabled = false

theorem basic_of_mem_base {f : SvecFpga} {r : SvecCoreFpga.Res} (h : r ∈ f.base) : Basic r := by
  rcases List.mem_append.mp h with h | h
  · rw [(SvecCoreFpga.owner_of_mem_having h).1]
    exact .inl rfl
  · simp only [List.mem_cons, List.not_mem_nil, or_false] at h
    rcases h with rfl | rfl | rfl
    · exact .inr (.inl rfl)
    · exact .inr (.inr (.inl rfl))
    · exact .inr (.inr (.inr rfl))

section Steps

variable {o : List Kind} {k : Kernel} {lost : List SvecCoreFpga.Res} {r : Kind}

theorem Holds.acquire (h : Holds o k lost) (r : Kind) : Holds (r :: o) (k.acquire r) lost :=
  ⟨congrArg _ h.core, h.fpga, h.basic, h.marks, h.quiet⟩

theorem Holds.release (h : Holds (r :: o) k lost) : Holds o (k.release r) lost := by
  refine ⟨?_, h.fpga, h.basic, h.marks, h.quiet⟩
  rw [Kernel.release, h.core, List.erase_cons_head]

theorem Holds.setDrvdata (h : Holds o k lost) (s : Option SvecDev) : Holds o { k with drvdata := s } lost :=
  ⟨h.core, h.fpga, h.basic, h.marks, h.quiet⟩

/-- An act while `svec_fpga` is NULL. -/
theorem Holds.mark (h : Holds o k lost) (hfpga : k.fpga.svecFpga = none) (act : Act)
    (locks : act = .load → [.mgrLock, .mgrRef, .mtx] <+: o) : Holds o (k.mark act) lost := by
  refine ⟨h.core, h.fpga, h.basic, ?_, h.quiet⟩
  intro m hm
  rcases List.mem_append.mp hm with hm | hm
  · exact h.marks m hm
  · obtain rfl := List.mem_singleton.mp hm
    have hlost : k.fpga.held = lost := by rw [h.fpga, hfpga]; rfl
    refine ⟨hfpga, hlost ▸ List.suffix_refl _, ?_⟩
    intro hact
    exact h.core ▸ locks hact

theorem Holds.deviceUnregister (h : Holds (.device :: o) k lost) (hfpga : k.fpga.svecFpga = none) :
    Holds o (deviceUnregister k) lost :=
  (h.mark hfpga .unregister fun hact => absurd hact (by decide)).release

/-- What `svec_vme_init` and `svec_vme_exit` leave. -/
def Kernel.written (k : Kernel) (enabled : Bool) (l : List CsrWrite) : Kernel :=
  { k with vmeEnabled := enabled, csrWrites := k.csrWrites ++ l }

theorem vmeEnable_writes (a : VmeAnswers) (k : Kernel) (l : List CsrWrite) :
    (vmeEnableDevice a (k.written false l)).2 = k.written (decide (a.enable = 0)) l := by
  unfold vmeEnableDevice Kernel.written
  split
  · rename_i henable
    rw [decide_eq_true henable]
  · rename_i henable
    rw [decide_eq_false henable]

theorem vmeInit_writes (a : VmeAnswers) (k : Kernel) :
    ∃ e l, (svecVmeInit a k).2 = k.written e l ∧ ∀ c ∈ l, c.enabled = false := by
  by_cases hdis : a.disable = 0
  · refine ⟨decide (a.enable = 0), [⟨0x7ff5c, a.irqVector.setWidth 32, false⟩, ⟨0x7ff58, a.irqLevel.setWidth 32, false⟩], ?_, by simp⟩
    rw [← vmeEnable_writes]
    simp [svecVmeInit, vmeDisableDevice, hdis, svecCsrWrite, svecUserCsrIntVector, svecUserCsrIntLevel,
      Kernel.written]
  · exact ⟨k.vmeEnabled, [], by simp [svecVmeInit, vmeDisableDevice, hdis, Kernel.written], by simp⟩

theorem vmeExit_writes (a : VmeAnswers) (k : Kernel) :
    ∃ e l, (svecVmeExit a k).2 = k.written e l ∧ ∀ c ∈ l, c.enabled = false := by
  by_cases hdis : a.disable = 0
  · refine ⟨decide (a.enable = 0), [⟨0x7ff5c, 0#32, false⟩], ?_, by simp⟩
    rw [← vmeEnable_writes]
    simp [svecVmeExit, vmeDisableDevice, hdis, svecCsrWrite, svecUserCsrIntVector, Kernel.written]
  · exact ⟨k.vmeEnabled, [], by simp [svecVmeExit, vmeDisableDevice, hdis, Kernel.written], by simp⟩

theorem Holds.written (h : Holds o k lost) {e : Bool} {l : List CsrWrite} (hl : ∀ c ∈ l, c.enabled = false) :
    Holds o (k.written e l) lost := by
  refine ⟨h.core, h.fpga, h.basic, h.marks, ?_⟩
  intro c hc
  rcases List.mem_append.mp hc with hc | hc
  · exact h.quiet c hc
  · exact hl c hc

/-- After `svec_fpga_exit` only the lost resources are held. -/
theorem fpgaExit_held {w : World} (h : w.held = w.svecFpga.elim [] SvecFpga.owned ++ lost) :
    (svecFpgaExit w).1 = 0 ∧ (svecFpgaExit w).2.held = lost ∧ (svecFpgaExit w).2.svecFpga = none := by
  cases hs : w.svecFpga with
  | none =>
    rw [hs] at h
    simp only [svecFpgaExit, hs]
    exact ⟨trivial, h, trivial⟩
  | some f =>
    rw [hs] at h
    obtain ⟨w', freed, hexit⟩ := SvecCoreFpga.exit_frees hs h
    rw [hexit]
    exact ⟨rfl, freed.rest h, rfl⟩

theorem Holds.fpgaExit (h : Holds o k lost) : Holds o { k with fpga := (svecFpgaExit k.fpga).2 } lost := by
  obtain ⟨-, hheld, hnone⟩ := fpgaExit_held h.fpga
  refine ⟨h.core, ?_, h.basic, h.marks, h.quiet⟩
  dsimp only
  rw [hheld, hnone]
  rfl

/-! ### The remove and the store -/

theorem Holds.dbgExit {s : SvecDev} (h : Holds s.owned k lost) :
    Holds [.mgrRegistered, .mgr, .device, .svec] (svecDbgExit s k) lost := by
  obtain ⟨d⟩ := s
  cases d with
  | true => exact h.release
  | false => exact h

theorem dbgExit_fpga (s : SvecDev) (k : Kernel) : (svecDbgExit s k).fpga = k.fpga := by
  unfold svecDbgExit
  split <;> rfl

/-- `svec_remove` releases all that the driver holds, but for what is lost. -/
theorem Holds.remove {s : SvecDev} (h : Holds s.owned k lost) (a : VmeAnswers) :
    Holds [] (svecRemove a s k) lost ∧ (svecRemove a s k).drvdata = none ∧
      (svecRemove a s k).fpga.svecFpga = none := by
  obtain ⟨-, -, hnone⟩ := fpgaExit_held h.fpga
  have hmgr := h.fpgaExit.dbgExit.release.release
  obtain ⟨e, l, hvme, hl⟩ := vmeExit_writes a (((svecDbgExit s { k with fpga := (svecFpgaExit k.fpga).2 }).release
    .mgrRegistered).release .mgr)
  have hfpga : (svecDbgExit s { k with fpga := (svecFpgaExit k.fpga).2 }).fpga.svecFpga = none := by
    rw [dbgExit_fpga]
    exact hnone
  unfold svecRemove
  dsimp only
  rw [hvme]
  exact ⟨((hmgr.written hl).deviceUnregister hfpga).release.setDrvdata none, rfl, hfpga⟩

/-- `compat_svec_fw_load`, while `svec_fpga` is NULL and the mutex is held. -/
theorem Holds.compatLoad (h : Holds (.mtx :: o) k lost) (hfpga : k.fpga.svecFpga = none) (a : StoreAnswers) :
    Holds (.mtx :: o) (compatSvecFwLoad a k).2 lost ∧ (compatSvecFwLoad a k).2.drvdata = k.drvdata ∧
      (compatSvecFwLoad a k).2.fpga = k.fpga := by
  unfold compatSvecFwLoad
  split
  · exact ⟨h, rfl, rfl⟩
  · split
    · exact ⟨h, rfl, rfl⟩
    · dsimp only
      split
      · exact ⟨(h.acquire .mgrRef).release, rfl, rfl⟩
      · have hload := ((h.acquire .mgrRef).acquire .mgrLock).mark hfpga .load fun _ => ⟨o, rfl⟩
        exact ⟨hload.release.release, rfl, rfl⟩

/-- `svec_fw_load` loads the FPGA once nothing leads to its device any more. -/
theorem Holds.fwLoad (h : Holds o k lost) (a : StoreAnswers) :
    Holds o (svecFwLoad a k).2 lost ∧ (svecFwLoad a k).2.drvdata = k.drvdata ∧
      (svecFwLoad a k).2.fpga.svecFpga = none := by
  obtain ⟨hzero, -, hnone⟩ := fpgaExit_held h.fpga
  have hexit := h.fpgaExit
  unfold svecFwLoad
  cases hx : svecFpgaExit k.fpga with
  | mk err fpga =>
    rw [hx] at hzero hnone hexit
    have herr : err = 0 := hzero
    dsimp only
    rw [if_neg (not_not.mpr herr)]
    obtain ⟨hload, hdata, hfpga⟩ := (hexit.acquire .mtx).compatLoad hnone a
    exact ⟨hload.release, hdata, (congrArg World.svecFpga hfpga).trans hnone⟩

end Steps

/-! ## Between the events -/

/-- Between two events the driver holds what it needs for the card that it is bound to. -/
structure Settled (k : Kernel) (lost : List SvecCoreFpga.Res) : Prop where
  holds : Holds (k.drvdata.elim [] SvecDev.owned) k lost
  free : k.drvdata = none → k.fpga.svecFpga = none

/-- The probe comes to the set-up of the FPGA's device. -/
structure ProbeAnswers.Registers (a : ProbeAnswers) : Prop where
  kzalloc : a.kzalloc = true
  devSetName : a.devSetName = 0
  deviceRegister : a.deviceRegister = 0
  fpgaMgrCreate : a.fpgaMgrCreate = true
  fpgaMgrRegister : a.fpgaMgrRegister = 0

/-- The set-up of the FPGA's device fails in this event once that device is registered. -/
def Event.FailsLate (b : Build) : Event → Prop
  | .probe a => a.Registers ∧ SvecCoreFpga.Registers b a.fpga ∧ SvecCoreFpga.FailsLate b a.fpga
  | .store _ _ | .remove _ => False

/-- The driver is bound to the card after this event: a probe in which nothing fails before the set-up
of the FPGA's device, or a write of the firmware's name that does not remove the card. -/
def Event.Binds : Event → Prop
  | .probe a => a.Registers
  | .store a _ => a.deviceRemoveFileSelf = false
  | .remove _ => False

section Events

variable {b : Build} {k k' : Kernel} {lost : List SvecCoreFpga.Res}

theorem Settled.remove (h : Settled k lost) {s : SvecDev} (hs : k.drvdata = some s) (a : VmeAnswers) :
    Settled (svecRemove a s k) lost ∧ (svecRemove a s k).drvdata = none := by
  have hholds := h.holds
  rw [hs] at hholds
  obtain ⟨hrest, hgone, hnone⟩ := Holds.remove hholds a
  exact ⟨⟨by rw [hgone]; exact hrest, fun _ => hnone⟩, hgone⟩

theorem Settled.store (h : Settled k lost) {s : SvecDev} (hs : k.drvdata = some s) (a : StoreAnswers) (count : Int) :
    Settled (firmwareNameStore a count s k).2 lost ∧
      ((firmwareNameStore a count s k).2.drvdata ≠ none ↔ (Event.store a count).Binds) := by
  obtain ⟨hload, hdata, hnone⟩ := h.holds.fwLoad a
  have hs' := hdata.trans hs
  have hload : Settled (svecFwLoad a k).2 lost := ⟨by rw [hdata]; exact hload, fun _ => hnone⟩
  unfold firmwareNameStore Event.Binds
  dsimp only
  cases hself : a.deviceRemoveFileSelf with
  | true =>
    obtain ⟨hgone, hdrv⟩ := hload.remove hs' a.vme
    exact ⟨hgone, iff_of_false (fun hne => hne hdrv) (by decide)⟩
  | false =>
    have hbound : (svecFwLoad a k).2.drvdata ≠ none := by
      rw [hs']
      exact Option.some_ne_none s
    exact ⟨hload, iff_of_true hbound rfl⟩

/-- `svec_fpga_init` on a new `svec_dev`: what is lost is the device that a late failure leaves. -/
theorem fpgaInit_held {a : Answers} {w w' : World} {err : Int} (hfree : w.svecFpga = none)
    (hinit : svecFpgaInit b a w = (some err, w')) :
    ∃ new, w'.held = w'.svecFpga.elim [] SvecFpga.owned ++ (new ++ w.held) ∧ (∀ r ∈ new, Basic r) ∧
      (new = [] ↔ ¬ (SvecCoreFpga.Registers b a ∧ SvecCoreFpga.FailsLate b a)) := by
  by_cases hreg : SvecCoreFpga.Registers b a
  case neg =>
    obtain ⟨err', w'', -, hinit', hheld, hnone, -⟩ := SvecCoreFpga.init_refused hreg hfree
    obtain ⟨-, rfl⟩ := Prod.ext_iff.mp (hinit.symm.trans hinit')
    refine ⟨[], ?_, fun _ hr => absurd hr List.not_mem_nil, iff_of_true rfl fun both => hreg both.1⟩
    rw [hheld, hnone]
    rfl
  have hended := SvecCoreFpga.init_ended w hreg
  rw [hinit] at hended
  cases hended with
  | failed err f w' late he ho held kept hc =>
    refine ⟨f.base, ?_, fun r hr => basic_of_mem_base hr, iff_of_false ?_ fun hno => hno ⟨hreg, late⟩⟩
    · rw [held, kept, hfree]
      rfl
    · exact List.ne_nil_of_mem (SvecCoreFpga.device_mem_base f)
  | done f w' fine ho held set hc =>
    refine ⟨[], ?_, fun _ hr => absurd hr List.not_mem_nil, iff_of_true rfl fun both => fine both.2⟩
    rw [held, set]
    rfl

theorem Holds.dbgInit (h : Holds [.mgrRegistered, .mgr, .device, .svec] k lost) (a : ProbeAnswers) :
    ∃ s : SvecDev, (svecDbgInit a k).drvdata = some s ∧ Holds s.owned (svecDbgInit a k) lost ∧
      (svecDbgInit a k).fpga = k.fpga := by
  unfold svecDbgInit
  split
  · exact ⟨⟨true⟩, rfl, (h.acquire .dbgDir).setDrvdata _, rfl⟩
  · exact ⟨⟨false⟩, rfl, h.setDrvdata _, rfl⟩

theorem Holds.newSvec {o : List Kind} (h : Holds o k lost) (hfree : k.fpga.svecFpga = none) :
    Holds (.svec :: o) k.newSvec lost := by
  refine ⟨(h.acquire .svec).core, ?_, h.basic, h.marks, h.quiet⟩
  have hheld := h.fpga
  rw [hfree] at hheld
  exact hheld

/-- A probe that fails takes everything back. -/
theorem Holds.errName (h : Holds [.svec] k lost) (hfree : k.fpga.svecFpga = none) {err err' : Int} (herr : err ≠ 0)
    (hend : some (errName err k) = some (err', k')) : Settled k' lost ∧ k'.drvdata = none ∧ err' ≠ 0 := by
  obtain ⟨rfl, rfl⟩ := Prod.ext_iff.mp (Option.some.inj hend)
  exact ⟨⟨h.release.setDrvdata none, fun _ => hfree⟩, rfl, herr⟩

theorem Settled.probeRegistered {a : ProbeAnswers} (h : Holds [.mgrRegistered, .mgr, .device, .svec] k lost)
    (hfree : k.fpga.svecFpga = none) {err : Int} (hprobe : svecProbeRegistered b a k = some (err, k')) :
    ∃ new, Settled k' (new ++ lost) ∧ err = 0 ∧ k'.drvdata ≠ none ∧
      (new = [] ↔ ¬ (SvecCoreFpga.Registers b a.fpga ∧ SvecCoreFpga.FailsLate b a.fpga)) := by
  obtain ⟨s, hs, hholds, hfpga⟩ := h.dbgInit a
  unfold svecProbeRegistered at hprobe
  dsimp only at hprobe
  rw [hfpga] at hprobe
  cases hinit : svecFpgaInit b a.fpga k.fpga with
  | mk result w' =>
    rw [hinit] at hprobe
    cases result with
    | none => exact absurd hprobe (by simp)
    | some err' =>
      obtain ⟨rfl, rfl⟩ := Prod.ext_iff.mp (Option.some.inj hprobe)
      obtain ⟨new, hheld, hbasic, hnew⟩ := fpgaInit_held hfree hinit
      have hlost : k.fpga.held = lost := by
        rw [h.fpga, hfree]
        rfl
      refine ⟨new, ⟨⟨?_, ?_, ?_, ?_, hholds.quiet⟩, ?_⟩, rfl, ?_, hnew⟩
      · exact hholds.core.trans (by rw [hs]; rfl)
      · rw [← hlost]
        exact hheld
      · intro r hr
        rcases List.mem_append.mp hr with hr | hr
        · exact hbasic r hr
        · exact h.basic r hr
      · intro m hm
        have hsound := hholds.marks m hm
        exact { hsound with fpga := hsound.fpga.trans (List.suffix_append new lost) }
      · intro hno
        exact absurd (hs.symm.trans hno) (by simp)
      · intro hno
        exact absurd (hs.symm.trans hno) (by simp)

/-- `svec_probe` either binds the driver or takes back all that `svec-core.c` acquired. -/
theorem Settled.probe {a : ProbeAnswers} (h : Settled k lost) (hunbound : k.drvdata = none) {err : Int}
    (hprobe : svecProbe b a k = some (err, k')) :
    ∃ new, Settled k' (new ++ lost) ∧ (err = 0 ↔ k'.drvdata ≠ none) ∧
      (k'.drvdata ≠ none ↔ (Event.probe a).Binds) ∧ (new = [] ↔ ¬ (Event.probe a).FailsLate b) := by
  have hholds := h.holds
  rw [hunbound] at hholds
  have hfree := h.free hunbound
  have hsvec : Holds [.svec] k.newSvec lost := hholds.newSvec hfree
  -- A probe that does not come to the FPGA's device.
  have failed (hnot : ¬ a.Registers) (hend : Settled k' lost ∧ k'.drvdata = none ∧ err ≠ 0) :
      ∃ new, Settled k' (new ++ lost) ∧ (err = 0 ↔ k'.drvdata ≠ none) ∧
        (k'.drvdata ≠ none ↔ (Event.probe a).Binds) ∧ (new = [] ↔ ¬ (Event.probe a).FailsLate b) := by
    obtain ⟨hsettled, hgone, herr⟩ := hend
    exact ⟨[], hsettled, iff_of_false herr fun hbound => hbound hgone,
      iff_of_false (fun hbound => hbound hgone) hnot, iff_of_true rfl fun hlate => hnot hlate.1⟩
  unfold svecProbe at hprobe
  split at hprobe
  · rename_i hmem
    obtain ⟨rfl, rfl⟩ := Prod.ext_iff.mp (Option.some.inj hprobe)
    exact failed (fun hall => by simp [hall.kzalloc] at hmem) ⟨h, hunbound, (by decide : -enomem ≠ 0)⟩
  rename_i hmem
  dsimp only at hprobe
  split at hprobe
  · rename_i hname
    exact failed (fun hall => hname hall.devSetName) (hsvec.errName rfl hname hprobe)
  rename_i hname
  split at hprobe
  · rename_i hreg
    exact failed (fun hall => hreg hall.deviceRegister) (hsvec.errName rfl hreg hprobe)
  rename_i hreg
  obtain ⟨e, l, hvme, hl⟩ := vmeInit_writes a.vme (k.newSvec.acquire .device)
  rw [hvme] at hprobe
  have hdev : Holds [.device, .svec] ((k.newSvec.acquire .device).written e l) lost := (hsvec.acquire .device).written hl
  split at hprobe
  · rename_i hmgr
    exact failed (fun hall => by simp [hall.fpgaMgrCreate] at hmgr)
      ((hdev.deviceUnregister rfl).errName rfl (by decide) hprobe)
  rename_i hmgr
  split at hprobe
  · rename_i hmgrReg
    exact failed (fun hall => hmgrReg hall.fpgaMgrRegister)
      (((hdev.acquire .mgr).release.deviceUnregister rfl).errName rfl hmgrReg hprobe)
  rename_i hmgrReg
  obtain ⟨new, hsettled, rfl, hbound, hnew⟩ :=
    Settled.probeRegistered ((hdev.acquire .mgr).acquire .mgrRegistered) rfl hprobe
  have hall : a.Registers := by
    refine ⟨?_, ?_, ?_, ?_, ?_⟩
    · simpa using hmem
    · simpa using hname
    · simpa using hreg
    · simpa using hmgr
    · simpa using hmgrReg
  exact ⟨new, hsettled, iff_of_true rfl hbound, iff_of_true hbound hall,
    hnew.trans (not_congr (and_iff_right hall).symm)⟩

/-- An event keeps the driver settled, binds it or not, and loses something exactly if the set-up of
the FPGA's device fails late. -/
theorem Settled.step (h : Settled k lost) {e : Event} (hstep : step b k e = some k') :
    ∃ new, Settled k' (new ++ lost) ∧ (k'.drvdata ≠ none ↔ e.Binds) ∧ (new = [] ↔ ¬ e.FailsLate b) := by
  unfold LifeCycle.step at hstep
  cases e with
  | probe a =>
    cases hdata : k.drvdata with
    | some s => simp [hdata] at hstep
    | none =>
      simp only [hdata, Option.map_eq_some_iff] at hstep
      obtain ⟨⟨err, k''⟩, hprobe, rfl⟩ := hstep
      obtain ⟨new, hsettled, -, hbound, hnew⟩ := h.probe hdata hprobe
      exact ⟨new, hsettled, hbound, hnew⟩
  | store a count =>
    obtain ⟨s, hs, rfl⟩ := Option.map_eq_some_iff.mp hstep
    obtain ⟨hsettled, hbound⟩ := h.store hs a count
    exact ⟨[], hsettled, hbound, iff_of_true rfl not_false⟩
  | remove a =>
    obtain ⟨s, hs, rfl⟩ := Option.map_eq_some_iff.mp hstep
    obtain ⟨hsettled, hgone⟩ := h.remove hs a
    exact ⟨[], hsettled, iff_of_false (fun hbound => hbound hgone) not_false, iff_of_true rfl not_false⟩

end Events

/-- The bus answers. -/
def goodVme : VmeAnswers := ⟨0, 0, 0x81#8, 3#8⟩

/-- No service fails in the probe. -/
def goodProbe : ProbeAnswers := ⟨true, 0, 0, goodVme, true, 0, true, SvecCoreFpga.allGood⟩

/-- The VIC cannot be registered. -/
def noVic : ProbeAnswers := { goodProbe with fpga := { SvecCoreFpga.allGood with vicPdev := -enomem } }

end Svec.Host.LifeCycle
