/-
  Boot/Isolation.lean --- what the host can do to the card in passive mode.

  `boot_en_i` gates the START bit and nothing else.  Two runs are compared, one of
  which contains additional writes of registers other than BTRIGR.  The registers
  of the block may then differ; the flash, the flash boot engine and the trigger
  detector cannot see the difference unless FAR is written, and the loader cannot
  see it as long as it belongs to the flash engine or rests in `IDLE`.
-/
import Svec.Hdl.Bootloader

set_option autoImplicit false

namespace Svec.Boot.Isolation

open Svec.Data Svec.Sync Svec.Hdl Svec.Hdl.Bootloader

/-! ## The front of the register block -/

/-- The part of the register block that the rest of the core sees whatever the boot source
is: the access under way, and the signals of BTRIGR and FAR. -/
structure Front where
  ackSreg : BitVec 10
  ackInProgress : Bool
  btrigrWr : Bool
  farDataLoad : Bool
  farXferInt : Bool
  farCsInt : Bool
  deriving DecidableEq

def front (w : XloaderWb.Regs) : Front :=
  ⟨w.ackSreg, w.ackInProgress, w.btrigrWr, w.farDataLoad, w.farXferInt, w.farCsInt⟩

/-- The word address of a bus cycle. -/
def regAdr (bus : WbMasterOut) : BitVec 3 := bus.adr.extractLsb' 0 3

/-- The front after a reset. -/
def Front.reset : Front := ⟨0#10, false, false, false, false, false⟩

/-- The front goes its way without a look at the other registers. -/
def Front.step (p : Front) (rstN : Bool) (bus : WbMasterOut) : Front :=
  if !rstN then .reset
  else if p.ackInProgress then
    { p with
      ackSreg := p.ackSreg >>> 1, ackInProgress := !p.ackSreg.getLsbD 0
      btrigrWr := false, farDataLoad := false }
  else if bus.cyc && bus.stb then
    let far := bus.we && regAdr bus = 2#3
    { ackSreg := p.ackSreg >>> 1 ||| XloaderWb.ackSet (regAdr bus), ackInProgress := true
      btrigrWr := p.btrigrWr || (bus.we && regAdr bus = 1#3)
      farDataLoad := p.farDataLoad || far
      farXferInt := if far then bus.dat.getLsbD 8 else p.farXferInt
      farCsInt := if far then bus.dat.getLsbD 10 else p.farCsInt }
  else { p with ackSreg := p.ackSreg >>> 1 }

/-- Nothing happens on a silent bus while no access is open. -/
theorem Front.step_silent {p : Front} {bus : WbMasterOut} (hp : p.ackInProgress = false)
    (hbus : (bus.cyc && bus.stb) = false) :
    p.step true bus = { p with ackSreg := p.ackSreg >>> 1 } := by
  simp [Front.step, hp, hbus]

theorem front_writeReg (w : XloaderWb.Regs) (a : BitVec 3) (d : Word) :
    front (XloaderWb.writeReg w a d) =
      { front w with
        btrigrWr := w.btrigrWr || a = 1#3, farDataLoad := w.farDataLoad || a = 2#3
        farXferInt := if a = 2#3 then d.getLsbD 8 else w.farXferInt
        farCsInt := if a = 2#3 then d.getLsbD 10 else w.farCsInt } := by
  unfold XloaderWb.writeReg front
  by_cases h0 : a = 0#3
  · subst h0; simp
  by_cases h1 : a = 1#3
  · subst h1; simp
  by_cases h2 : a = 2#3
  · subst h2; simp
  by_cases h6 : a = 6#3
  · subst h6; simp; split <;> simp
  simp only [h0, h1, h2, h6, if_false]
  (repeat' split) <;> simp

theorem front_step (w : XloaderWb.Regs) (rstN : Bool) (bus : WbMasterOut)
    (f : XloaderWb.FifoFlags) (regsI : XloaderWb.RegsIn) :
    front (XloaderWb.step w rstN bus f regsI) = (front w).step rstN bus := by
  unfold XloaderWb.step Front.step
  cases rstN with
  | false => rfl
  | true =>
    simp only [Bool.not_true, Bool.false_eq_true, if_false]
    show front (XloaderWb.pRegisterBank w bus f regsI) = _
    unfold XloaderWb.pRegisterBank
    have hpf : (front w).ackInProgress = w.ackInProgress := rfl
    rcases Bool.eq_false_or_eq_true w.ackInProgress with hp | hp <;> rw [hpf]
    · have hsf : (front w).ackSreg = w.ackSreg := rfl
      rw [if_pos hp, if_pos hp, hsf]
      generalize w.ackSreg.getLsbD 0 = acked
      cases acked <;> simp [front, hp]
    · have hp' : ¬ w.ackInProgress = true := by simp [hp]
      rw [if_neg hp', if_neg hp']
      cases bus.cyc && bus.stb with
      | false => rfl
      | true =>
        rw [if_pos rfl, if_pos rfl]
        cases bus.we with
        | false => simp [front, regAdr]
        | true =>
          show { front (XloaderWb.writeReg { w with ackSreg := w.ackSreg >>> 1 } (regAdr bus) bus.dat) with
            ackSreg := w.ackSreg >>> 1 ||| XloaderWb.ackSet (regAdr bus), ackInProgress := true } = _
          rw [front_writeReg]
          simp [front]

/-- An access is open until its acknowledge has shifted through, and the pulses of a write
are over when it is. -/
structure Front.Tidy (p : Front) : Prop where
  closed : p.ackInProgress = false →
    p.ackSreg = 0#10 ∧ p.btrigrWr = false ∧ p.farDataLoad = false
  opened : p.ackInProgress = true → p.ackSreg = 1#10 ∨ p.ackSreg = 2#10 ∨ p.ackSreg = 4#10

theorem Front.tidy_reset : Front.reset.Tidy :=
  ⟨fun _ => ⟨rfl, rfl, rfl⟩, fun h => absurd h (by decide)⟩

theorem Front.Tidy.step {p : Front} (h : p.Tidy) (rstN : Bool) (bus : WbMasterOut) :
    (p.step rstN bus).Tidy := by
  unfold Front.step
  cases rstN with
  | false => exact tidy_reset
  | true =>
    simp only [Bool.not_true, Bool.false_eq_true, if_false]
    cases hp : p.ackInProgress with
    | true =>
      rw [if_pos rfl]
      rcases h.opened hp with hs | hs | hs <;> rw [hs]
      · exact ⟨fun _ => ⟨rfl, rfl, rfl⟩, fun h => absurd h (by simp)⟩
      · exact ⟨fun h => absurd h (by simp), fun _ => Or.inl rfl⟩
      · exact ⟨fun h => absurd h (by simp), fun _ => Or.inr (Or.inl rfl)⟩
    | false =>
      obtain ⟨hs, hb, hf⟩ := h.closed hp
      rw [if_neg Bool.false_ne_true, hs]
      split
      · refine ⟨fun h => absurd h (by simp), fun _ => ?_⟩
        show 0#10 >>> 1 ||| XloaderWb.ackSet (regAdr bus) = 1#10 ∨ _ ∨
          0#10 >>> 1 ||| XloaderWb.ackSet (regAdr bus) = 4#10
        unfold XloaderWb.ackSet
        split
        · exact Or.inr (Or.inr rfl)
        · exact Or.inl rfl
      · exact ⟨fun _ => ⟨rfl, hb, hf⟩, fun h => absurd h (by simp)⟩

/-- The fronts of two runs: equal, or the second one alone has an access open, and then it is
an additional one. -/
def FrontRel (additional : Prop) (p p' : Front) : Prop :=
  p' = p ∨ (additional ∧ p.ackInProgress = false ∧
    p' = { p with ackSreg := p'.ackSreg, ackInProgress := true })

theorem FrontRel.signals {x : Prop} {p p' : Front} (h : FrontRel x p p') :
    p'.btrigrWr = p.btrigrWr ∧ p'.farDataLoad = p.farDataLoad ∧ p'.farXferInt = p.farXferInt ∧
      p'.farCsInt = p.farCsInt := by
  rcases h with rfl | ⟨-, -, h⟩
  · exact ⟨rfl, rfl, rfl, rfl⟩
  · rw [h]
    exact ⟨rfl, rfl, rfl, rfl⟩

/-- A write of a register other than BTRIGR and FAR leaves their signals alone, and is over
with its acknowledge. -/
theorem frontRel_additional {x : Prop} {p p' : Front} {rstN : Bool} {bus bus' : WbMasterOut}
    (hp : p.Tidy) (hp' : p'.Tidy) (h : FrontRel True p p') (hfree : p.ackInProgress = false)
    (hsilent : (bus.cyc && bus.stb) = false) (hstb' : (bus'.cyc && bus'.stb) = true)
    (hbtrigr : regAdr bus' ≠ 1#3) (hfar : regAdr bus' ≠ 2#3)
    (hheld : p'.ackSreg.getLsbD 0 = false → x) :
    FrontRel x (p.step rstN bus) (p'.step rstN bus') := by
  obtain ⟨hs, hb, hf⟩ := hp.closed hfree
  cases rstN with
  | false => exact Or.inl rfl
  | true =>
    rw [Front.step_silent hfree hsilent]
    rcases h with rfl | ⟨-, -, h⟩
    · -- The additional write begins.
      have hx : x := hheld (by rw [hs]; rfl)
      refine Or.inr ⟨hx, hfree, ?_⟩
      simp [Front.step, hfree, hstb', hbtrigr, hfar]
    · -- The additional write goes on, or is acknowledged.
      obtain ⟨sreg, rfl⟩ : ∃ sreg, p' = { p with ackSreg := sreg, ackInProgress := true } := ⟨_, h⟩
      cases hack : sreg.getLsbD 0 with
      | true =>
        have h1 : sreg = 1#10 := by
          rcases hp'.opened rfl with h1 | h1 | h1
          · exact h1
          all_goals
            have h1' : sreg = _ := h1
            rw [h1'] at hack
            exact absurd hack (by decide)
        subst h1
        refine Or.inl ?_
        simp [Front.step, hs, hb, hf, hfree]
      | false =>
        refine Or.inr ⟨hheld hack, hfree, ?_⟩
        have hack' : sreg[0] = false := hack
        simp [Front.step, hack', hb, hf]

/-! ## What the other components see of the block -/

theorem trig_congr {r : BootTrigger.Regs} {i i' : BootTrigger.In} (hr : i'.rstN = i.rstN)
    (hw : i'.btrigrWr = i.btrigrWr) (hb : i.btrigrWr = true → i'.btrigr = i.btrigr) :
    BootTrigger.pDetectBootTrigger r i' = BootTrigger.pDetectBootTrigger r i := by
  obtain ⟨rst, wr, b⟩ := i
  obtain ⟨rst', wr', b'⟩ := i'
  dsimp only at hr hw hb
  subst hr hw
  cases wr' with
  | true => rw [hb rfl]
  | false => rfl

theorem m25p_congr {r : M25pFlash.Regs} {i i' : M25pFlash.In} (hi : i' = { i with far := i'.far })
    (hload : i'.far.dataLoad = i.far.dataLoad) (hfar : i.far.dataLoad = true → i'.far = i.far) :
    M25pFlash.step r i' = M25pFlash.step r i := by
  cases hl : i.far.dataLoad with
  | true =>
    rw [hfar hl] at hi
    rw [hi]
  | false =>
    rw [hl] at hload
    rw [hi]
    unfold M25pFlash.step M25pFlash.pMainFsm M25pFlash.pHostSpiRegisters
    simp only [hload, hl, Bool.false_eq_true, if_false]

/-! ## The loader at rest -/

/-- The registers of the loader that `IDLE` keeps. -/
def kept (r : XilinxLoader.Regs) : XilinxLoader.Regs :=
  { r with clkDiv := 0#7, tick := false, timeoutCounter := 0#21, csrDone := false, csrError := false }

/-- A reset leaves nothing of the other registers. -/
theorem xldr_reset {r : XilinxLoader.Regs} {i : XilinxLoader.In} (hr : i.rstN = false) :
    XilinxLoader.step r i = { kept r with
      state := .idle, xlxProgramB := true, xlxCclk := false, xlxDin := false } := by
  simp [XilinxLoader.step, XilinxLoader.pMainFsm, XilinxLoader.pDivideClock, kept, hr]

/-- In `IDLE` without a start the loader puts its pins at rest, whatever else it reads. -/
theorem kept_idle {r : XilinxLoader.Regs} {i : XilinxLoader.In} (hs : r.state = .idle)
    (hstart : i.csrStart = false) :
    kept (XilinxLoader.step r i) = { kept r with
      xlxProgramB := true, xlxCclk := false, xlxDin := false } := by
  cases hr : (!i.rstN || i.csrSwrst) <;>
    simp [XilinxLoader.step, XilinxLoader.pMainFsm, kept, hs, hstart, hr]

/-! ## Two runs -/

section Run

variable {P : Parts}

/-- The registers of two runs agree as far as the pins depend on them. -/
structure Agree (a b : Regs P) : Prop where
  bootSource : b.bootSource = a.bootSource
  trig : b.trig = a.trig
  flash : b.flash = a.flash
  m25p : b.m25p = a.m25p
  spi : b.spi = a.spi
  initSync : b.initSync = a.initSync
  doneSync : b.doneSync = a.doneSync
  loader : kept b.xldr = kept a.xldr
  owned : a.bootSource = .flash → b.xldr = a.xldr

theorem Agree.refl (a : Regs P) : Agree a a :=
  ⟨rfl, rfl, rfl, rfl, rfl, rfl, rfl, rfl, fun _ => rfl⟩

/-- The signals of BTRIGR and FAR agree, and so do the buses while they carry data. -/
structure SameSignals (a b : Regs P) (i i' : In) : Prop where
  pins : i' = { i with wb := i'.wb }
  btrigrWr : b.wb.btrigrWr = a.wb.btrigrWr
  farDataLoad : b.wb.farDataLoad = a.wb.farDataLoad
  farXferInt : b.wb.farXferInt = a.wb.farXferInt
  farCsInt : b.wb.farCsInt = a.wb.farCsInt
  bus : a.wb.btrigrWr = true ∨ a.wb.farDataLoad = true → i'.wb = i.wb

variable {a b : Regs P} {i i' : In}

theorem SameSignals.farOut (h : SameSignals a b i i') (hl : a.wb.farDataLoad = true) :
    farOut b i' = farOut a i := by
  unfold Bootloader.farOut XloaderWb.far wbIn
  rw [h.farDataLoad, h.farXferInt, h.farCsInt, h.bus (Or.inr hl)]

theorem Agree.spiIn (h : Agree a b) (hsig : SameSignals a b i i') : spiIn b i' = spiIn a i := by
  have hrst : i'.rstN = i.rstN := by rw [hsig.pins]
  have hmiso : i'.spiMiso = i.spiMiso := by rw [hsig.pins]
  unfold Bootloader.spiIn M25pFlash.spiIn Bootloader.farOut XloaderWb.far
  rw [h.m25p, hrst, hmiso, hsig.farCsInt]

theorem Agree.spiOut (h : Agree a b) (hsig : SameSignals a b i i') : spiOut b i' = spiOut a i := by
  unfold Bootloader.spiOut
  rw [h.spi, h.spiIn hsig]

/-- The pins agree. -/
theorem Agree.pins (h : Agree a b) (hsig : SameSignals a b i i') :
    configPins b = configPins a ∧ spiPins b i' = spiPins a i := by
  constructor
  · have hprog := congrArg XilinxLoader.Regs.xlxProgramB h.loader
    have hcclk := congrArg XilinxLoader.Regs.xlxCclk h.loader
    have hdin := congrArg XilinxLoader.Regs.xlxDin h.loader
    unfold configPins
    rw [show b.xldr.xlxProgramB = a.xldr.xlxProgramB from hprog,
      show b.xldr.xlxCclk = a.xldr.xlxCclk from hcclk, show b.xldr.xlxDin = a.xldr.xlxDin from hdin]
  · unfold spiPins
    rw [h.spiOut hsig]

/-- While the flash engine owns the loader, the engine and the loader read the same. -/
theorem Agree.toXilinxBoot (h : Agree a b) (hflash : a.bootSource = .flash) :
    toXilinxBoot b i' = toXilinxBoot a i := by
  unfold Bootloader.toXilinxBoot
  rw [h.bootSource, hflash]
  show fromFlashLdr b = fromFlashLdr a
  unfold fromFlashLdr
  rw [h.flash]

theorem Agree.toFlashLdr (h : Agree a b) : toFlashLdr b i' = toFlashLdr a i := by
  unfold Bootloader.toFlashLdr
  rw [h.bootSource]
  cases hsrc : a.bootSource with
  | host => rfl
  | flash =>
    show fromXilinxBoot b i' = fromXilinxBoot a i
    unfold fromXilinxBoot
    rw [h.owned hsrc, h.toXilinxBoot hsrc]

theorem Agree.flashIn (h : Agree a b) (hsig : SameSignals a b i i') : flashIn b i' = flashIn a i := by
  have hrst : i'.rstN = i.rstN := by rw [hsig.pins]
  unfold Bootloader.flashIn flashReady
  rw [hrst, h.toFlashLdr, h.bootSource, h.m25p, h.flash]

/-- The loader agrees after the step. -/
theorem Agree.loader_step (h : Agree a b) (hsig : SameSignals a b i i') (hen : i.bootEn = false)
    (hrest : a.bootSource = .host → a.xldr.state = .idle ∨ b = a) :
    kept (step b i').xldr = kept (step a i).xldr ∧
      ((step a i).bootSource = .flash → (step b i').xldr = (step a i).xldr) := by
  have hrst : i'.rstN = i.rstN := by rw [hsig.pins]
  have hen' : i'.bootEn = i.bootEn := by rw [hsig.pins]
  have hinit : i'.xlxInitB = i.xlxInitB := by rw [hsig.pins]
  have hdone : i'.xlxDone = i.xlxDone := by rw [hsig.pins]
  -- The whole loader agrees if it reads the same.
  have hall : b.xldr = a.xldr → Bootloader.toXilinxBoot b i' = Bootloader.toXilinxBoot a i →
      (step b i').xldr = (step a i).xldr := by
    intro hx hto
    rw [step_xldr, step_xldr, hx]
    unfold xldrIn syncIn
    rw [hto, hrst, h.initSync, h.doneSync, hinit, hdone]
  cases hr : i.rstN with
  | false =>
    have heq : (step b i').xldr = (step a i).xldr := by
      rw [step_xldr, step_xldr, xldr_reset (i := xldrIn b i') (hrst.trans hr),
        xldr_reset (i := xldrIn a i) hr, h.loader]
    exact ⟨congrArg kept heq, fun _ => heq⟩
  | true =>
    cases hsrc : a.bootSource with
    | flash =>
      have heq := hall (h.owned hsrc) (h.toXilinxBoot hsrc)
      exact ⟨congrArg kept heq, fun _ => heq⟩
    | host =>
      have hnext : (step a i).bootSource = .host := by
        simp [pSelectBootMode, hr, hsrc]
      refine ⟨?_, fun hflash => absurd (hnext.symm.trans hflash) (by decide)⟩
      rcases hrest hsrc with hs | rfl
      · have hs' : b.xldr.state = .idle := (congrArg XilinxLoader.Regs.state h.loader).trans hs
        have hstart : (xldrIn a i).csrStart = false := by
          simp [xldrIn, Bootloader.toXilinxBoot, fromHostLdr, hsrc, hen]
        have hstart' : (xldrIn b i').csrStart = false := by
          simp [xldrIn, Bootloader.toXilinxBoot, fromHostLdr, h.bootSource, hsrc, hen', hen]
        rw [step_xldr, step_xldr, kept_idle hs' hstart', kept_idle hs hstart, h.loader]
      · refine congrArg kept (hall rfl ?_)
        unfold Bootloader.toXilinxBoot fromHostLdr
        rw [hen']

/-- One step of both runs. -/
theorem Agree.step (h : Agree a b) (hsig : SameSignals a b i i') (hen : i.bootEn = false)
    (hrest : a.bootSource = .host → a.xldr.state = .idle ∨ b = a) :
    Agree (Bootloader.step a i) (Bootloader.step b i') := by
  have hrst : i'.rstN = i.rstN := by rw [hsig.pins]
  have hinit : i'.xlxInitB = i.xlxInitB := by rw [hsig.pins]
  have hdone : i'.xlxDone = i.xlxDone := by rw [hsig.pins]
  obtain ⟨hloader, howned⟩ := h.loader_step hsig hen hrest
  refine ⟨?_, ?_, ?_, ?_, ?_, ?_, ?_, hloader, howned⟩
  · rw [step_bootSource, step_bootSource]
    unfold pSelectBootMode
    rw [hrst, h.trig, h.bootSource]
  · rw [step_trig, step_trig, h.trig]
    refine trig_congr hrst hsig.btrigrWr fun hw => ?_
    show XloaderWb.btrigr (wbIn P i') = XloaderWb.btrigr (wbIn P i)
    unfold wbIn
    rw [hsig.bus (Or.inl hw)]
  · rw [step_flash, step_flash, h.flash, h.flashIn hsig]
  · rw [step_m25p, step_m25p, h.m25p]
    refine m25p_congr ?_ hsig.farDataLoad fun hl => hsig.farOut hl
    unfold m25pIn
    rw [hrst, h.flash, h.spiOut hsig]
  · show P.spiMaster.step b.spi (Bootloader.spiIn b i') = P.spiMaster.step a.spi (Bootloader.spiIn a i)
    rw [h.spi, h.spiIn hsig]
  · show P.syncFfs.step b.initSync _ = P.syncFfs.step a.initSync _
    unfold syncIn
    rw [h.initSync, hrst, hinit]
  · show P.syncFfs.step b.doneSync _ = P.syncFfs.step a.doneSync _
    unfold syncIn
    rw [h.doneSync, hrst, hdone]

/-! ## Additional writes -/

variable {s : Regs P} {inp inp' : ℕ → In} {additional : ℕ → Prop}

/-- The registers that a run reaches after a reset. -/
def Reachable (s : Regs P) : Prop :=
  ∃ (s₀ : Regs P) (inp : ℕ → In) (u n : ℕ), u < n ∧ (inp u).rstN = false ∧ s = core s₀ inp n

/-- A write of a register other than BTRIGR. -/
def OtherWrite (P : Parts) (i : In) : Prop :=
  i.wb.cyc = true ∧ i.wb.stb = true ∧ i.wb.we = true ∧ regAdr (wbIn P i) ≠ 1#3

/-- The second run contains additional writes of registers other than BTRIGR, in the given
cycles.  They come when the bus and the register block are free, and each is kept up until it
is acknowledged. -/
structure Additional (s : Regs P) (inp inp' : ℕ → In) (additional : ℕ → Prop) : Prop where
  same : ∀ t, ¬ additional t → inp' t = inp t
  pins : ∀ t, inp' t = { inp t with wb := (inp' t).wb }
  write : ∀ t, additional t → OtherWrite P (inp' t)
  silent : ∀ t, additional t → ((inp t).wb.cyc && (inp t).wb.stb) = false
  free : ∀ t, additional t → (core s inp t).wb.ackInProgress = false
  held : ∀ t, additional t → (wbOut (core s inp' t)).ack = false → additional (t + 1)

theorem front_succ (s : Regs P) (i : In) :
    front (step s i).wb = (front s.wb).step i.rstN (wbIn P i) :=
  front_step _ _ _ _ _

theorem tidy_step {s : Regs P} (h : (front s.wb).Tidy) (i : In) : (front (step s i).wb).Tidy := by
  rw [front_succ]
  exact h.step _ _

theorem tidy_reset {i : In} (hrst : i.rstN = false) (s : Regs P) : (front (step s i).wb).Tidy := by
  rw [front_succ, hrst]
  exact Front.tidy_reset

theorem Reachable.tidy (h : Reachable s) : (front s.wb).Tidy := by
  obtain ⟨s₀, inp, u, n, hun, hrst, rfl⟩ := h
  exact invariant_since (I := fun _ (r : Regs P) => (front r.wb).Tidy) (tidy_reset hrst _) hun
    fun k _ _ ih => tidy_step ih (inp k)

theorem tidy_run (hs : (front s.wb).Tidy) (inp : ℕ → In) (t : ℕ) : (front (core s inp t).wb).Tidy :=
  invariant_run (I := fun r : Regs P => (front r.wb).Tidy) (A := fun _ _ => True) hs
    (fun _ i h _ => tidy_step h i) (fun _ => trivial) t

/-- The condition under which additional writes have no effect. -/
structure Harmless (s : Regs P) (inp inp' : ℕ → In) (additional : ℕ → Prop) (n : ℕ) : Prop where
  /-- FAR is not written. -/
  far : ∀ t, t < n → additional t → regAdr (wbIn P (inp' t)) ≠ 2#3
  /-- After an additional write, the loader rests whenever it belongs to the host. -/
  rest : ∀ t, t < n → (∃ u, u < t ∧ additional u) → (core s inp t).bootSource = .host →
    (core s inp t).xldr.state = .idle

/-- What one cycle of the two runs leaves of the difference between the register blocks. -/
theorem frontRel_step (hadd : Additional s inp inp' additional) {n : ℕ}
    (hharm : Harmless s inp inp' additional n) {t : ℕ} (ht : t < n)
    (htidy : (front (core s inp t).wb).Tidy) (htidy' : (front (core s inp' t).wb).Tidy)
    (hrel : FrontRel (additional t) (front (core s inp t).wb) (front (core s inp' t).wb)) :
    FrontRel (additional (t + 1)) (front (core s inp (t + 1)).wb) (front (core s inp' (t + 1)).wb) := by
  have hrst : (inp' t).rstN = (inp t).rstN := by rw [hadd.pins t]
  rw [core_succ, core_succ, front_succ, front_succ, hrst]
  by_cases hx : additional t
  · obtain ⟨hcyc, hstb, hwe, hbtrigr⟩ := hadd.write t hx
    refine frontRel_additional htidy htidy' ?_ (hadd.free t hx) ?_ ?_ hbtrigr (hharm.far t ht hx)
      fun hack => hadd.held t hx hack
    · rcases hrel with h | ⟨-, hfree, h⟩
      · exact Or.inl h
      · exact Or.inr ⟨trivial, hfree, h⟩
    · simpa [wbIn] using hadd.silent t hx
    · simp [wbIn, hcyc, hstb]
  · rcases hrel with h | ⟨hx', -, -⟩
    · refine Or.inl ?_
      rw [h, hadd.same t hx]
    · exact absurd hx' hx

theorem front_run (hs : (front s.wb).Tidy) (hadd : Additional s inp inp' additional) {n : ℕ}
    (hharm : Harmless s inp inp' additional n) {t : ℕ} (ht : t ≤ n) :
    FrontRel (additional t) (front (core s inp t).wb) (front (core s inp' t).wb) :=
  related_run (R := fun t (a b : Regs P) => FrontRel (additional t) (front a.wb) (front b.wb))
    (Or.inl rfl) (fun t ht hrel => frontRel_step hadd hharm ht (tidy_run hs inp t) (tidy_run hs inp' t) hrel) ht

theorem sameSignals_run (hs : (front s.wb).Tidy) (hadd : Additional s inp inp' additional) {n : ℕ}
    (hharm : Harmless s inp inp' additional n) {t : ℕ} (ht : t ≤ n) :
    SameSignals (core s inp t) (core s inp' t) (inp t) (inp' t) := by
  obtain ⟨hw, hl, hxfer, hcs⟩ := (front_run hs hadd hharm ht).signals
  refine ⟨hadd.pins t, hw, hl, hxfer, hcs, fun hbusy => ?_⟩
  by_cases hx : additional t
  · obtain ⟨-, hb, hf⟩ := (tidy_run hs inp t).closed (hadd.free t hx)
    rcases hbusy with h | h
    · exact absurd h (by rw [show (core s inp t).wb.btrigrWr = false from hb]; decide)
    · exact absurd h (by rw [show (core s inp t).wb.farDataLoad = false from hf]; decide)
  · rw [hadd.same t hx]

theorem agree_run (hs : (front s.wb).Tidy) (hadd : Additional s inp inp' additional) {n : ℕ}
    (hen : ∀ t, t < n → (inp t).bootEn = false) (hharm : Harmless s inp inp' additional n) {t : ℕ}
    (ht : t ≤ n) : Agree (core s inp t) (core s inp' t) := by
  refine related_run (R := fun _ a b => Agree a b) (.refl s) (fun t ht hagree => ?_) ht
  refine Agree.step hagree (sameSignals_run hs hadd hharm (Nat.le_of_lt ht)) (hen t ht) fun hhost => ?_
  by_cases hx : ∃ u, u < t ∧ additional u
  · exact Or.inl (hharm.rest t ht hx hhost)
  · exact Or.inr (run_congr fun u hu => hadd.same u fun h => hx ⟨u, hu, h⟩)

end Run

/-! ## A write in passive mode -/

/-- A card in passive mode with a silent bus. -/
def passiveIn (rstN : Bool) : In := ⟨rstN, default, true, false, false, false⟩

/-- One write access in the first `n` cycles, and then a silent bus. -/
def oneWrite (adr : BitVec 32) (dat : Word) (n t : ℕ) : In :=
  if t < n then { passiveIn true with wb := ⟨true, true, adr, 0xf#4, true, dat⟩ } else passiveIn true

/-- A card with a blank flash, in the cycle after the reset. -/
def afterReset : Regs (standIns fun _ => 0xff#8) :=
  core (powerUp fun _ => 0xff#8) (fun t => passiveIn (decide (0 < t))) 1

theorem afterReset_reachable : Reachable afterReset :=
  ⟨_, fun t => passiveIn (decide (0 < t)), 0, 1, Nat.zero_lt_one, rfl, rfl⟩

/-- The register block of a silent bus stays free. -/
theorem silent_free {P : Parts} {s : Regs P} (hs : (front s.wb).ackInProgress = false) (t : ℕ) :
    (core s (fun _ => passiveIn true) t).wb.ackInProgress = false := by
  refine invariant_run (I := fun r : Regs P => (front r.wb).ackInProgress = false)
    (A := fun _ i => i = passiveIn true) hs (fun r i hfree hi => ?_) (fun _ => rfl) t
  subst hi
  have hbus : (wbIn P (passiveIn true)).cyc = false := P.adapter.masterO_cyc _
  rw [front_succ]
  show (Front.step _ true (wbIn P (passiveIn true))).ackInProgress = false
  rw [Front.step_silent hfree (by rw [hbus, Bool.false_and])]
  exact hfree

/-- An access that is over when it is acknowledged is an additional one. -/
theorem oneWrite_additional {adr : BitVec 32} {dat : Word} {n : ℕ}
    (hadr : regAdr (wbIn (standIns fun _ => 0xff#8) (oneWrite adr dat (n + 1) 0)) ≠ 1#3)
    (hack : (wbOut (core afterReset (oneWrite adr dat (n + 1)) n)).ack = true) :
    Additional afterReset (fun _ => passiveIn true) (oneWrite adr dat (n + 1)) fun t => t < n + 1 where
  same t ht := if_neg ht
  pins t := by
    unfold oneWrite
    split <;> rfl
  write t ht := by
    rw [oneWrite, if_pos (Nat.zero_lt_succ n)] at hadr
    rw [oneWrite, if_pos ht]
    exact ⟨rfl, rfl, rfl, hadr⟩
  silent _ _ := rfl
  free t _ := silent_free (by decide) t
  held t ht h := by
    rcases Nat.lt_succ_iff_lt_or_eq.mp ht with ht | rfl
    · exact Nat.succ_lt_succ ht
    · rw [hack] at h
      exact absurd h (by decide)

/-- A write of 1 to FAR.CS selects the flash, `boot_en_i` low or not. -/
theorem far_selects_flash :
    ¬ ∀ (P : Parts) (s : Regs P) (inp inp' : ℕ → In) (additional : ℕ → Prop) (n : ℕ), Reachable s →
      Additional s inp inp' additional → (∀ t, t ≤ n → (inp t).bootEn = false) →
      configPins (core s inp' n) = configPins (core s inp n) ∧
        spiPins (core s inp' n) (inp' n) = spiPins (core s inp n) (inp n) := by
  intro hall
  have hpins := (hall _ afterReset (fun _ => passiveIn true) (oneWrite 8#32 0x400#32 2) _ 1
    afterReset_reachable (oneWrite_additional (by decide) (by decide)) fun _ _ => rfl).2
  exact absurd hpins (by decide)

/-- In passive mode additional writes do not show on the flash pins or on the configuration
pins, provided FAR is not among them and the loader rests once it belongs to the host. -/
theorem passive_ignores_host (P : Parts) (s : Regs P) (inp inp' : ℕ → In) (additional : ℕ → Prop)
    (n : ℕ) (hs : Reachable s) (hadd : Additional s inp inp' additional)
    (hen : ∀ t, t < n → (inp t).bootEn = false) (hharm : Harmless s inp inp' additional n) :
    configPins (core s inp' n) = configPins (core s inp n) ∧
      spiPins (core s inp' n) (inp' n) = spiPins (core s inp n) (inp n) :=
  (agree_run hs.tidy hadd hen hharm (Nat.le_refl n)).pins
    (sameSignals_run hs.tidy hadd hharm (Nat.le_refl n))

/-- A write of START, SWRST and EXIT while the flash engine boots. -/
theorem passive_ignores_host_csr :
    configPins (core afterReset (oneWrite 0#32 0x61#32 4) 20) =
        configPins (core afterReset (fun _ => passiveIn true) 20) ∧
      spiPins (core afterReset (oneWrite 0#32 0x61#32 4) 20) (oneWrite 0#32 0x61#32 4 20) =
        spiPins (core afterReset (fun _ => passiveIn true) 20) (passiveIn true) :=
  passive_ignores_host _ afterReset (fun _ => passiveIn true) (oneWrite 0#32 0x61#32 4) _ 20
    afterReset_reachable (oneWrite_additional (n := 3) (by decide) (by decide)) (fun _ _ => rfl)
    { far := fun t _ ht => by
        rw [oneWrite, if_pos ht]
        decide
      rest := fun t ht _ hhost => by
        have hflash : ∀ t, t < 20 →
            (core afterReset (fun _ => passiveIn true) t).bootSource = .flash := by decide +kernel
        exact absurd (hhost.symm.trans (hflash t ht)) (by decide) }

end Svec.Boot.Isolation
