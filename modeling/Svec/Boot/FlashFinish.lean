/-
  Boot/FlashFinish.lean --- a boot from the flash comes to its end.

  How long the flash takes for a transfer is not bounded, so the engine's way to the
  next byte is measured by a rank in two parts: how far the request has come, and
  what is left of the transfer.  Each byte is offered in the end, and a serialiser
  that is not starved shifts out everything.
-/
import Svec.Boot.FlashPins

set_option autoImplicit false

namespace Svec.Boot.FlashFinish

open Svec.Data Svec.Sync Svec.Hdl Svec.Hdl.Bootloader Svec.Boot.FlashReader Svec.Boot.FlashStream
open Svec.Boot.HostMode Svec.Boot.FlashPins Svec.Loader Svec.Loader.Serialise
open Svec.Hdl.XilinxLoader (csrRd)
open Svec.Loader.Delivery (Opening)

/-! ## The next byte is offered -/

/-- The transfers that a request still takes. -/
def turns : M25pFlash.State → ℕ
  | .idle => 0
  | .csel => 6
  | .command => 5
  | .addr0 => 4
  | .addr1 => 3
  | .addr2 => 2
  | .dummyXfer => 1
  | .data => 1

section Controller

variable {content : BitVec 24 → Byte} {m : M25pFlash.Regs} {i : M25pFlash.In} {l l' : SpiLink}

/-- A request that is under way goes on with the next transfer, or the transfer goes on. -/
theorem turn (h : Cycle content m i l l') (hs : m.state ≠ .idle) :
    turns (M25pFlash.step m i).state < turns m.state ∧ m.spiStart = false ∨
      (M25pFlash.step m i).state = m.state ∧ (M25pFlash.step m i).spiStart = false ∧
        (m.spiStart = true ∨ l'.busy < l.busy) := by
  rw [step_running h]
  unfold M25pFlash.pMainFsm
  rw [h.rstN, h.noLoad]
  cases hready : i.spiReady with
  | true =>
    have hr := hready
    rw [h.ready, Bool.and_eq_true, decide_eq_true_eq, Bool.not_eq_true'] at hr
    left
    cases hstate : m.state <;> simp [turns, hr.2]
    exact absurd hstate hs
  | false =>
    right
    have hwait : m.spiStart = true ∨ l'.busy < l.busy := by
      cases hstart : m.spiStart with
      | true => exact .inl rfl
      | false =>
        have hbusy := (link_hold h hstart).1
        rw [h.ready, hstart] at hready
        have hne : l.busy ≠ 0 := by simpa using hready
        exact .inr (by omega)
    cases hstate : m.state <;> simp [hwait]
    exact absurd hstate hs

end Controller

/-- How far the engine is from the next byte, apart from the transfer. -/
def phase (f : FlashBoot.Regs) (m : M25pFlash.Regs) : ℕ :=
  match f.state with
  | .waitSelectBitstream =>
    if f.flashSetAddr then 40
    else if m.state = .idle then (if m.readyInt then 11 else 12)
    else 12 + 2 * turns m.state + m.spiStart.toNat
  | .fetchBsByte =>
    if f.flashRead then 10
    else if m.state = .idle then 3 else 2 + 2 * turns m.state + m.spiStart.toNat
  | _ => 0

/-- The rank of a cycle. -/
def rank (f : FlashBoot.Regs) (m : M25pFlash.Regs) (l : SpiLink) : ℕ × ℕ := (phase f m, l.busy)

theorem rank_wf : WellFounded (Prod.Lex (· < ·) (· < ·) : ℕ × ℕ → ℕ × ℕ → Prop) :=
  (Prod.lex Nat.lt_wfRel Nat.lt_wfRel).wf

section Engine

variable {content : BitVec 24 → Byte} {f : FlashBoot.Regs} {fi : FlashBoot.In}
  {m : M25pFlash.Regs} {mi : M25pFlash.In} {l l' : SpiLink} {n : ℕ}

/-- On the way to the next byte. -/
def Fetches (f : FlashBoot.Regs) : Prop := f.state = .waitSelectBitstream ∨ f.state = .fetchBsByte

theorem Fetches.only (hs : Fetches f) {st : FlashBoot.State} (hst : f.state = st)
    (hwait : st ≠ .waitSelectBitstream) (hfetch : st ≠ .fetchBsByte) : False := by
  rcases hs with hs | hs
  · exact hwait (hst.symm.trans hs)
  · exact hfetch (hst.symm.trans hs)

/-- A request under way comes nearer to its end. -/
theorem turn_lt (h : Cycle content m mi l l') (hs : m.state ≠ .idle) (b : ℕ) :
    Prod.Lex (· < ·) (· < ·)
      (b + 2 * turns (M25pFlash.step m mi).state + (M25pFlash.step m mi).spiStart.toNat, l'.busy)
      (b + 2 * turns m.state + m.spiStart.toNat, l.busy) := by
  have hle := Bool.toNat_le (M25pFlash.step m mi).spiStart
  rcases turn h hs with ⟨hlt, hstart⟩ | ⟨hstate, hstart, hwait⟩
  · rw [hstart]
    exact .left _ _ (by rw [Bool.toNat_false]; omega)
  · rw [hstate, hstart]
    rcases hwait with hpulse | hbusy
    · rw [hpulse]
      exact .left _ _ (Nat.lt_succ_self _)
    · cases m.spiStart with
      | true => exact .left _ _ (Nat.lt_succ_self _)
      | false => exact .right _ hbusy

/-- The controller on its way to an address, with an engine that waits for it. -/
theorem phase_seeking (hs : f.state = .waitSelectBitstream) (hset : f.flashSetAddr = false)
    (hm : m.state ≠ .idle) : phase f m = 12 + 2 * turns m.state + m.spiStart.toNat := by
  unfold phase
  simp only [hs, hset, Bool.false_eq_true, if_false, if_neg hm]

theorem phase_idle_le (hs : f.state = .waitSelectBitstream) (hset : f.flashSetAddr = false)
    (hm : m.state = .idle) : phase f m ≤ 12 := by
  unfold phase
  simp only [hs, hset, Bool.false_eq_true, if_false, if_pos hm]
  split <;> omega

theorem two_le_turns (hm : m.state ≠ .idle) : 2 ≤ 2 * turns m.state := by
  cases hs : m.state <;> simp [turns]
  exact absurd hs hm

/-- Each cycle brings the engine nearer to the next byte. -/
theorem fetches_step (h : EngineCycle content f fi m mi l l') (hstage : Stage content f m l n)
    (hs : Fetches f) : (FlashBoot.step f fi).state = .loadBsByte ∨ Fetches (FlashBoot.step f fi) ∧
      Prod.Lex (· < ·) (· < ·) (rank (FlashBoot.step f fi) (M25pFlash.step m mi) l') (rank f m l) := by
  cases hstage with
  | selectingBitstream hwait haddr hpos =>
    right
    have hseta : mi.setAddr = f.flashSetAddr := h.setAddr
    obtain ⟨hread, ⟨hset, hidle⟩ | ⟨hset, hseek | hat⟩⟩ := hpos
    · -- The pulse of "set address" is taken.
      have hnext := seeking_of_setAddr (a := f.flashAddr) h.cycle hidle (hseta.trans hset)
      have hnot : fi.flashReady = false := by simp [h.ready, M25pFlash.readyO, hset]
      have hstate : (M25pFlash.step m mi).state = .csel := by
        simp [step_running h.cycle, M25pFlash.pMainFsm, h.cycle.rstN, h.cycle.noLoad, hidle.1, hseta, hset]
      have hf : (FlashBoot.step f fi).state = .waitSelectBitstream ∧
          (FlashBoot.step f fi).flashSetAddr = false := by
        simp [FlashBoot.step, FlashBoot.pMain, h.rstN, h.enable, hwait, hnot]
      refine ⟨.inl hf.1, .left _ _ ?_⟩
      rw [phase_seeking hf.1 hf.2 (by rw [hstate]; decide), hstate]
      have hle := Bool.toNat_le (M25pFlash.step m mi).spiStart
      simp only [phase, hwait, hset, if_true, turns]
      omega
    · -- The controller is on its way.
      have hm : m.state ≠ .idle := by
        rintro hm
        have hstage := hseek.2
        rw [hm] at hstage
        exact hstage.elim
      have hnot : fi.flashReady = false := by simp [h.ready, M25pFlash.readyO, hseek.1]
      have hf : (FlashBoot.step f fi).state = .waitSelectBitstream ∧
          (FlashBoot.step f fi).flashSetAddr = false := by
        simp [FlashBoot.step, FlashBoot.pMain, h.rstN, h.enable, hwait, hnot]
      refine ⟨.inl hf.1, ?_⟩
      unfold rank
      rw [phase_seeking hwait hset hm]
      by_cases hm' : (M25pFlash.step m mi).state = .idle
      · have hle := phase_idle_le hf.1 hf.2 hm'
        have htwo := two_le_turns hm
        exact .left _ _ (by omega)
      · rw [phase_seeking hf.1 hf.2 hm']
        exact turn_lt h.cycle hm 12
    · -- The controller is there, and ready at the latest in the next cycle.
      have hm := hat.idle.1
      have hm' : (M25pFlash.step m mi).state = .idle ∧ (M25pFlash.step m mi).readyInt = true := by
        simp [step_running h.cycle, M25pFlash.pMainFsm, h.cycle.rstN, h.cycle.noLoad, hm, hseta, hset,
          h.read, hread]
      cases hint : m.readyInt with
      | true =>
        have hready : fi.flashReady = true := by simp [h.ready, M25pFlash.readyO, hset, hread, hint]
        have hf : (FlashBoot.step f fi).state = .fetchBsByte ∧ (FlashBoot.step f fi).flashRead = true := by
          simp [FlashBoot.step, FlashBoot.pMain, h.rstN, h.enable, hwait, hready]
        refine ⟨.inr hf.1, .left _ _ ?_⟩
        simp [phase, hf.1, hf.2, hwait, hset, hm, hint]
      | false =>
        have hnot : fi.flashReady = false := by simp [h.ready, M25pFlash.readyO, hint]
        have hf : (FlashBoot.step f fi).state = .waitSelectBitstream ∧
            (FlashBoot.step f fi).flashSetAddr = false := by
          simp [FlashBoot.step, FlashBoot.pMain, h.rstN, h.enable, hwait, hnot]
        refine ⟨.inl hf.1, .left _ _ ?_⟩
        simp [phase, hf.1, hf.2, hwait, hset, hm, hint, hm'.1, hm'.2]
  | fetching n hn hfetch hpos =>
    obtain ⟨hset, ⟨hread, hat⟩ | ⟨hread, hreading | ⟨hat, hint, -⟩⟩⟩ := hpos
    · -- The pulse of "read" is taken.
      right
      have hnot : fi.flashReady = false := by simp [h.ready, M25pFlash.readyO, hread]
      have hnext := (reading_of_read h.cycle hat (h.setAddr.trans hset) (h.read.trans hread)).1.state
      have hf : (FlashBoot.step f fi).state = .fetchBsByte ∧ (FlashBoot.step f fi).flashRead = false := by
        simp [FlashBoot.step, FlashBoot.pMain, h.rstN, h.enable, hfetch, hnot]
      refine ⟨.inr hf.1, .left _ _ ?_⟩
      have hle := Bool.toNat_le (M25pFlash.step m mi).spiStart
      simp [phase, hf.1, hf.2, hfetch, hread, hnext, turns]
      omega
    · -- The byte is on its way.
      right
      have hm : m.state ≠ .idle := by rw [hreading.state]; decide
      have hnot : fi.flashReady = false := by simp [h.ready, M25pFlash.readyO, hreading.notReady]
      have hf : (FlashBoot.step f fi).state = .fetchBsByte ∧ (FlashBoot.step f fi).flashRead = false := by
        simp [FlashBoot.step, FlashBoot.pMain, h.rstN, h.enable, hfetch, hnot]
      have hphase : phase f m = 2 + 2 * turns m.state + m.spiStart.toNat := by
        simp [phase, hfetch, hread, hm]
      refine ⟨.inr hf.1, ?_⟩
      unfold rank
      rw [hphase]
      by_cases hm' : (M25pFlash.step m mi).state = .idle
      · have htwo := two_le_turns hm
        have hthree : phase (FlashBoot.step f fi) (M25pFlash.step m mi) = 3 := by simp [phase, hf.1, hf.2, hm']
        exact .left _ _ (by omega)
      · have hphase' : phase (FlashBoot.step f fi) (M25pFlash.step m mi) =
            2 + 2 * turns (M25pFlash.step m mi).state + (M25pFlash.step m mi).spiStart.toNat := by
          simp [phase, hf.1, hf.2, hm']
        rw [hphase']
        exact turn_lt h.cycle hm 2
    · -- It is there.
      left
      have hready : fi.flashReady = true := by simp [h.ready, M25pFlash.readyO, hset, hread, hint]
      simp [FlashBoot.step, FlashBoot.pMain, h.rstN, h.enable, hfetch, hready]
  | resting hs' => rcases hs' with hs' | hs' <;> exact (hs.only hs' (by decide) (by decide)).elim
  | selectingSdb hs' => exact (hs.only hs' (by decide) (by decide)).elim
  | checking k _ hs' =>
    have hne : checkSig k ≠ .waitSelectBitstream ∧ checkSig k ≠ .fetchBsByte := by
      unfold checkSig
      split <;> decide
    exact (hs.only hs' hne.1 hne.2).elim
  | signed hs' => exact (hs.only hs' (by decide) (by decide)).elim
  | loading n _ hs' => exact (hs.only hs' (by decide) (by decide)).elim
  | ended n _ hs' => rcases hs' with hs' | hs' <;> exact (hs.only hs' (by decide) (by decide)).elim

end Engine

/-! ## The loader comes back for it -/

/-- The ticks until the loader reads the next byte. -/
def ticksLeft (x : XilinxLoader.Regs) : ℕ :=
  match x.state with
  | .readFifo2 => 17
  | .outputBit => 2 * (x.bitCounter.toNat + 1)
  | .clockEdge => 2 * x.bitCounter.toNat + 1
  | _ => 0

/-- The cycles until then, with a tick in every second one. -/
def cyclesLeft (x : XilinxLoader.Regs) : ℕ := 2 * ticksLeft x + (!x.tick).toNat

section Loader

variable {x : XilinxLoader.Regs} {xi : XilinxLoader.In}

theorem ticksLeft_step (hrun : xi.Running) (hunseen : ¬ SeesDone x xi)
    (hsize : x.state = .readFifo2 → xi.csrDsize = 0#2) (h : Shifting x) (hs : x.state ≠ .readFifo) :
    if x.tick then ticksLeft (XilinxLoader.step x xi) + 1 = ticksLeft x
    else ticksLeft (XilinxLoader.step x xi) = ticksLeft x := by
  unfold Shifting at h
  unfold ticksLeft
  rw [XilinxLoader.step_state, XilinxLoader.step_bitCounter]
  unfold XilinxLoader.pMainFsm
  rw [hrun.guard]
  cases hst : x.state <;> rw [hst] at h <;> simp only [Bool.false_eq_true, if_false]
  case readFifo => exact absurd hst hs
  case readFifo2 =>
    cases ht : x.tick
    · simp
    · simp [hsize hst]
  case outputBit =>
    cases ht : x.tick
    · simp [hst]
    · have hdone := low_of_unseen hunseen hst ht
      simp [hdone]
      omega
  case clockEdge =>
    cases ht : x.tick
    · simp [hst]
    · by_cases hb : x.bitCounter = 0#5
      · simp [hb, h.2]
      · have hsub := sub_one_toNat hb
        simp [hb, -BitVec.toNat_sub]
        omega
  all_goals exact h.elim

theorem cyclesLeft_step (hrun : xi.Running) (hunseen : ¬ SeesDone x xi)
    (hsize : x.state = .readFifo2 → xi.csrDsize = 0#2) (hclk : xi.csrClkDiv = 1#7)
    (hdiv : (x.tick = true ∧ x.clkDiv = 0#7) ∨ (x.tick = false ∧ x.clkDiv = 1#7)) (h : Shifting x)
    (hs : x.state ≠ .readFifo) : cyclesLeft (XilinxLoader.step x xi) < cyclesLeft x := by
  have hticks := ticksLeft_step hrun hunseen hsize h hs
  have htick : (XilinxLoader.step x xi).tick = !x.tick := by
    rw [XilinxLoader.step_tick, XilinxLoader.pDivideClock, hrun.1, hclk]
    rcases hdiv with ⟨ht, hc⟩ | ⟨ht, hc⟩ <;> simp [ht, hc]
  unfold cyclesLeft
  rw [htick]
  cases ht : x.tick <;> rw [ht] at hticks <;> simp at hticks ⊢ <;> omega

/-- The load is over. -/
def Over (x : XilinxLoader.Regs) : Prop :=
  x.state = .gotDone ∨ x.state = .startupCclk0 ∨ x.state = .startupCclk1 ∨ x.state = .idle

theorem over_of_seesDone (hrun : xi.Running) (h : SeesDone x xi) : Over (XilinxLoader.step x xi) := by
  obtain ⟨hs, ht, hdone⟩ := h
  exact .inl (by simp [XilinxLoader.pMainFsm, hrun.guard, hs, ht, hdone])

/-- Without START no other load begins. -/
theorem over_step (hrun : xi.Running) (hstart : xi.csrStart = false) (h : Over x) :
    Over (XilinxLoader.step x xi) := by
  unfold Over
  rw [XilinxLoader.step_state]
  unfold XilinxLoader.pMainFsm
  rw [hrun.guard]
  rcases h with hs | hs | hs | hs <;> simp only [hs, hstart, Bool.false_eq_true, if_false] <;>
    (repeat' split) <;> simp [hs]

end Loader

/-! ## A whole boot -/

section Run

variable {P : Parts} {content : BitVec 24 → Byte} {s : Regs P} {inp : ℕ → In} {l : ℕ → SpiLink}

/-- The bytes handed over up to cycle `t`. -/
def count (s : Regs P) (inp : ℕ → In) (t : ℕ) : ℕ := (delivered s inp t).length

/-- The loader reads from cycle `t` on, and does not report DONE. -/
structure Reads (content : BitVec 24 → Byte) (s : Regs P) (inp : ℕ → In) (l : ℕ → SpiLink) (t : ℕ) :
    Prop where
  booting : Booting content (core s inp (t + 1)) (l (t + 1)) (count s inp t)
  plain : Plain (core s inp (t + 1)).flash (count s inp t)
  shifting : Shifting (core s inp (t + 1)).xldr
  notDone : (core s inp (t + 1)).xldr.csrDone = false
  engine : Engaged (core s inp (t + 1)).flash ∨
    (core s inp (t + 1)).flash.state = .noBitstream ∧ count s inp t = 0x408001
  sum : pinSamples s inp 1 t ++ flashInLoader (core s inp (t + 1)) =
    (List.range (count s inp t)).flatMap fun k => byteBits (bitstreamByte content k)

theorem count_succ (h : FlashRun content s inp l) (hunseen : ∀ t, ¬ SeesDoneAt s inp t) (t : ℕ) :
    count s inp (t + 1) = count s inp t +
      (hands (core s inp (t + 1)).flash (flashIn (core s inp (t + 1)) (inp (t + 1)))).toNat := by
  obtain ⟨n, hboot, -⟩ := stands_run h fun j _ => hunseen j
  rw [count, delivered, collect_succ, List.length_append, hboot.handed_eq]
  cases hands (core s inp (t + 1)).flash (flashIn (core s inp (t + 1)) (inp (t + 1))) <;> rfl

/-- A loader that shifts without DONE reads. -/
theorem reads_of_shifting (h : FlashRun content s inp l) (hunseen : ∀ t, ¬ SeesDoneAt s inp t) {t : ℕ}
    (hs : Shifting (core s inp (t + 1)).xldr) (hflag : (core s inp (t + 1)).xldr.csrDone = false) :
    Reads content s inp l t := by
  obtain ⟨n, hboot, hplain, hdel, hstands⟩ := stands_run h fun j _ => hunseen j
  have hn : count s inp t = n := by rw [count, hdel]; simp
  rw [← hn] at hboot hplain hstands
  have hno : ∀ st, (core s inp (t + 1)).xldr.state = st → (st = .idle ∨ Opening st) → False := by
    intro st hst hout
    unfold Shifting at hs
    rw [hst] at hs
    rcases hout with rfl | rfl | rfl | rfl <;> exact hs
  cases hstands with
  | waiting _ hst => exact (hno _ hst (.inl rfl)).elim
  | opening _ hst => exact (hno _ rfl (.inr hst)).elim
  | abandoned _ hst => exact (hno _ hst (.inl rfl)).elim
  | loading _ _ hend hsum => exact ⟨hboot, hplain, hs, hflag, hend hflag, hsum⟩

theorem reads_step (h : FlashRun content s inp l) (hunseen : ∀ t, ¬ SeesDoneAt s inp t) {t : ℕ}
    (hk : Reads content s inp l t) : Reads content s inp l (t + 1) := by
  have hr := h.running (t + 1) (Nat.succ_pos t)
  have hrun : (xldrIn (core s inp (t + 1)) (inp (t + 1))).Running := running_quiet hk.booting.quiet hr
  refine reads_of_shifting h hunseen (shifting_step hrun (hunseen t) (fun hs => ?_) hk.shifting) ?_
  · obtain ⟨k, -, hport⟩ := onDataPort_latch hk.booting hk.plain hs
    have hlast : (core s inp (t + 1)).flash.xldrDlast = false := congrArg FifoEntry.xlast hport
    exact (congrArg XilinxBootIn.dlast (toXilinxBoot_quiet hk.booting.quiet)).trans hlast
  · exact (shifting_csrDone hrun hk.shifting).trans hk.notDone

theorem reads_from (h : FlashRun content s inp l) (hunseen : ∀ t, ¬ SeesDoneAt s inp t) {t u : ℕ} (htu : t ≤ u)
    (hk : Reads content s inp l t) : Reads content s inp l u := by
  induction htu with
  | refl => exact hk
  | step _ ih => exact reads_step h hunseen ih

/-- The engine offers a byte again and again, until the last one. -/
theorem offers (h : FlashRun content s inp l) (hunseen : ∀ t, ¬ SeesDoneAt s inp t) {t n : ℕ}
    (hk : Reads content s inp l t) (hn : count s inp t = n) (hlt : n < 0x408001) :
    ∃ u, t ≤ u ∧ count s inp u = n ∧ (core s inp (u + 1)).flash.state = .loadBsByte := by
  have hstate : Fetches (core s inp (t + 1)).flash ∨ (core s inp (t + 1)).flash.state = .loadBsByte := by
    rcases hk.engine with ⟨-, hs | hs | hs⟩ | ⟨-, hall⟩
    · exact .inl (.inl hs)
    · exact .inl (.inr hs)
    · exact .inr hs
    · exact absurd (hn.symm.trans hall) (Nat.ne_of_lt hlt)
  rcases hstate with hfetch | hload
  · let P := fun u => t ≤ u ∧ count s inp u = n ∧ Fetches (core s inp (u + 1)).flash
    let D := fun u => count s inp u = n ∧ (core s inp (u + 1)).flash.state = .loadBsByte
    let m := fun u => rank (core s inp (u + 1)).flash (core s inp (u + 1)).m25p (l (u + 1))
    have hnext : ∀ u, P u → D (u + 1) ∨ P (u + 1) ∧ Prod.Lex (· < ·) (· < ·) (m (u + 1)) (m u) := by
      rintro u ⟨htu, hcount, hf⟩
      have hku := reads_from h hunseen htu hk
      have hr := h.running (u + 1) (Nat.succ_pos u)
      have hcyc := hku.booting.quiet.engineCycle hr (h.flash.ready (u + 1)) (h.flash.data (u + 1))
        (h.flash.step (u + 1) hr)
      have hnot : hands (core s inp (u + 1)).flash (flashIn (core s inp (u + 1)) (inp (u + 1))) = false := by
        rcases hf with hs | hs <;> exact not_hands hs (by decide)
      have hcount' : count s inp (u + 1) = n := by
        rw [count_succ h hunseen, hnot, hcount]
        rfl
      rcases fetches_step hcyc hku.booting.stage hf with hload | ⟨hf', hlt'⟩
      · exact .inl ⟨hcount', hload⟩
      · exact .inr ⟨⟨Nat.le_succ_of_le htu, hcount', hf'⟩, hlt'⟩
    obtain ⟨u, hu, hD⟩ := comes_to rank_wf hnext ⟨Nat.le_refl t, hn, hfetch⟩
    exact ⟨u, Nat.le_of_lt hu, hD⟩
  · exact ⟨t, Nat.le_refl t, hn, hload⟩

/-- A loader that reads comes nearer to `READ_FIFO` in each cycle. -/
theorem nearer (h : FlashRun content s inp l) (hunseen : ∀ t, ¬ SeesDoneAt s inp t) {t : ℕ}
    (hk : Reads content s inp l t) (hs : (core s inp (t + 1)).xldr.state ≠ .readFifo) :
    cyclesLeft (core s inp (t + 1 + 1)).xldr < cyclesLeft (core s inp (t + 1)).xldr := by
  have hboot : toXilinxBoot (core s inp (t + 1)) (inp (t + 1)) = fromFlashLdr (core s inp (t + 1)) :=
    toXilinxBoot_quiet hk.booting.quiet
  have hdiv := hk.booting.divider
  have hne : (core s inp (t + 1)).flash.state ≠ .startup := by
    rintro hst
    rcases hk.engine with ⟨-, hs' | hs' | hs'⟩ | ⟨hs', -⟩ <;> exact absurd (hst.symm.trans hs') (by decide)
  refine cyclesLeft_step (running_quiet hk.booting.quiet (h.running (t + 1) (Nat.succ_pos t)))
    (hunseen t) (fun hs2 => ?_) (congrArg XilinxBootIn.clkDiv hboot)
    (hdiv.resolve_left fun hno => hne hno.1) hk.shifting hs
  obtain ⟨k, -, hport⟩ := onDataPort_latch hk.booting hk.plain hs2
  exact (congrArg XilinxBootIn.dsize hboot).trans (congrArg FifoEntry.xsize hport)

/-- The engine keeps a byte that is not taken. -/
theorem still_loading {r : Regs P} {i : In} (hr : i.rstN = true) (hq : Quiet r)
    (hload : r.flash.state = .loadBsByte) (hnot : hands r.flash (flashIn r i) = false) :
    (step r i).flash.state = .loadBsByte := by
  have hrd : (flashIn r i).xldrRd = false := by simpa [hands, hload] using hnot
  have hrst : (flashIn r i).rstN = true := hr
  have hen : (flashIn r i).enable = true := by simp [flashIn, hq.source]
  simp [FlashBoot.step, FlashBoot.pMain, hload, hrd, hrst, hen]

/-- The byte that is offered is taken. -/
theorem takes (h : FlashRun content s inp l) (hunseen : ∀ t, ¬ SeesDoneAt s inp t) {t n : ℕ}
    (hk : Reads content s inp l t) (hn : count s inp t = n)
    (hload : (core s inp (t + 1)).flash.state = .loadBsByte) : ∃ u, t < u ∧ count s inp u = n + 1 := by
  let P := fun u => t ≤ u ∧ count s inp u = n ∧ (core s inp (u + 1)).flash.state = .loadBsByte
  let m := fun u => cyclesLeft (core s inp (u + 1)).xldr
  have hnext : ∀ u, P u → count s inp (u + 1) = n + 1 ∨ P (u + 1) ∧ m (u + 1) < m u := by
    rintro u ⟨htu, hcount, hload⟩
    have hku := reads_from h hunseen htu hk
    have hempty : (core s inp (u + 1)).flash.xldrEmpty = false := by
      rw [hku.booting.empty, hload]
      rfl
    have hhand := hands_eq_csrRd (i := inp (u + 1)) hku.booting
    have hsucc := count_succ h hunseen u
    rw [hempty, csrRd] at hhand
    by_cases hs : (core s inp (u + 1)).xldr.state = .readFifo
    · left
      rw [hs] at hhand
      rw [hsucc, hhand, hcount]
      rfl
    · right
      have hidle : (core s inp (u + 1)).xldr.state ≠ .idle := by
        rintro hidle
        have hshift := hku.shifting
        rw [Shifting, hidle] at hshift
        exact hshift
      have hnot : hands (core s inp (u + 1)).flash (flashIn (core s inp (u + 1)) (inp (u + 1))) = false := by
        rw [hhand]
        simp [hs, hidle]
      refine ⟨⟨Nat.le_succ_of_le htu, by rw [hsucc, hnot, hcount]; rfl, ?_⟩, nearer h hunseen hku hs⟩
      exact still_loading (h.running (u + 1) (Nat.succ_pos u)) hku.booting.quiet hload hnot
  exact comes_to Nat.lt_wfRel.wf hnext ⟨Nat.le_refl t, hn, hload⟩

/-- The bytes are handed over one after the other, up to the last. -/
theorem hands_all (h : FlashRun content s inp l) (hunseen : ∀ t, ¬ SeesDoneAt s inp t) {t : ℕ}
    (hk : Reads content s inp l t) {n : ℕ} (hle : count s inp t ≤ n) (hn : n ≤ 0x408001) :
    ∃ u, t ≤ u ∧ count s inp u = n := by
  induction hle with
  | refl => exact ⟨t, Nat.le_refl t, rfl⟩
  | @step n _ ih =>
    obtain ⟨u, htu, hcount⟩ := ih (Nat.le_of_succ_le hn)
    obtain ⟨v, huv, hcount', hload⟩ := offers h hunseen (reads_from h hunseen htu hk) hcount hn
    obtain ⟨w, hvw, hcount''⟩ :=
      takes h hunseen (reads_from h hunseen (Nat.le_trans htu huv) hk) hcount' hload
    exact ⟨w, by omega, hcount''⟩

/-- A loader that reads comes to `READ_FIFO`. -/
theorem comes_back (h : FlashRun content s inp l) (hunseen : ∀ t, ¬ SeesDoneAt s inp t) {t : ℕ}
    (hk : Reads content s inp l t) : ∃ u, t ≤ u ∧ (core s inp (u + 1)).xldr.state = .readFifo := by
  by_cases hs : (core s inp (t + 1)).xldr.state = .readFifo
  · exact ⟨t, Nat.le_refl t, hs⟩
  · let P := fun u => t ≤ u ∧ (core s inp (u + 1)).xldr.state ≠ .readFifo
    let m := fun u => cyclesLeft (core s inp (u + 1)).xldr
    have hnext : ∀ u, P u →
        (core s inp (u + 1 + 1)).xldr.state = .readFifo ∨ P (u + 1) ∧ m (u + 1) < m u := by
      rintro u ⟨htu, hne⟩
      by_cases hs' : (core s inp (u + 1 + 1)).xldr.state = .readFifo
      · exact .inl hs'
      · exact .inr ⟨⟨Nat.le_succ_of_le htu, hs'⟩, nearer h hunseen (reads_from h hunseen htu hk) hne⟩
    obtain ⟨u, htu, hu⟩ := comes_to (D := fun u => (core s inp (u + 1)).xldr.state = .readFifo)
      Nat.lt_wfRel.wf hnext ⟨Nat.le_refl t, hs⟩
    exact ⟨u, Nat.le_of_lt htu, hu⟩

theorem inLoader_readFifo {r : Regs P} (hs : r.xldr.state = .readFifo) : flashInLoader r = [] := by
  unfold flashInLoader offered Feed.pending
  simp only [hs]

theorem pinSamples_prefix (s : Regs P) (inp : ℕ → In) {t u : ℕ} (htu : t ≤ u) :
    pinSamples s inp 1 t <+: pinSamples s inp 1 u := by
  induction htu with
  | refl => exact List.prefix_refl _
  | step _ ih => exact ih.trans (List.prefix_append _ _)

/-- Once the loader reads, without DONE, everything is sampled. -/
theorem samples_all (h : FlashRun content s inp l) (hunseen : ∀ t, ¬ SeesDoneAt s inp t) {t : ℕ}
    (hk : Reads content s inp l t) : ∃ T, ∀ u, T ≤ u → pinSamples s inp 1 u =
      (List.range 0x408001).flatMap fun k => byteBits (bitstreamByte content k) := by
  obtain ⟨u, htu, hall⟩ := hands_all h hunseen hk hk.booting.stage.le (Nat.le_refl _)
  obtain ⟨T, huT, hread⟩ := comes_back h hunseen (reads_from h hunseen htu hk)
  -- From then on nothing more is handed over, and the loader holds nothing back.
  have hcount : ∀ v, u ≤ v → count s inp v = 0x408001 := by
    intro v huv
    have hle := (reads_from h hunseen (Nat.le_trans htu huv) hk).booting.stage.le
    have hge : count s inp u ≤ count s inp v := by
      induction huv with
      | refl => exact Nat.le_refl _
      | @step v huv ih =>
        have hle' := (reads_from h hunseen (Nat.le_trans htu huv) hk).booting.stage.le
        exact Nat.le_trans (ih hle') (by rw [count_succ h hunseen]; exact Nat.le_add_right _ _)
    omega
  have hT : pinSamples s inp 1 T =
      (List.range 0x408001).flatMap fun k => byteBits (bitstreamByte content k) := by
    have hsum := (reads_from h hunseen (Nat.le_trans htu huT) hk).sum
    rwa [hcount T huT, inLoader_readFifo hread, List.append_nil] at hsum
  refine ⟨T, fun v hTv => ?_⟩
  obtain ⟨rest, hrest⟩ := pinSamples_prefix s inp hTv
  have hsum := (reads_from h hunseen (by omega : t ≤ v) hk).sum
  rw [hcount v (by omega), ← hT, ← hrest, List.append_assoc] at hsum
  have hnil : rest ++ flashInLoader (core s inp (v + 1)) = [] :=
    List.append_cancel_left (hsum.trans (List.append_nil _).symm)
  rw [← hrest, (List.append_eq_nil_iff.mp hnil).1, List.append_nil, hT]

/-- From `t` on the loader has seen DONE and will not be started again. -/
theorem over_run (h : FlashRun content s inp l) {t u : ℕ} (hsees : SeesDoneAt s inp t)
    (hafter : After (core s inp (t + 1)).flash) (htu : t < u) :
    Over (core s inp (u + 1)).xldr ∧ After (core s inp (u + 1)).flash := by
  have hstep : ∀ v, After (core s inp (v + 1)).flash → After (core s inp (v + 1 + 1)).flash := by
    intro v hv
    obtain ⟨n, hboot, -⟩ := booting_run h v
    have hen : (flashIn (core s inp (v + 1)) (inp (v + 1))).enable = true := by
      simp [flashIn, hboot.quiet.source]
    exact @after_step _ (flashIn _ _) (h.running (v + 1) (Nat.succ_pos v)) hen (.inl hv)
  induction htu with
  | refl =>
    obtain ⟨n, hboot, -⟩ := booting_run h t
    exact ⟨over_of_seesDone (running_quiet hboot.quiet (h.running (t + 1) (Nat.succ_pos t))) hsees,
      hstep t hafter⟩
  | @step u _ ih =>
    obtain ⟨hover, hafter⟩ := ih
    obtain ⟨n, hboot, -⟩ := booting_run h u
    have hstart : (xldrIn (core s inp (u + 1)) (inp (u + 1))).csrStart = false :=
      (congrArg XilinxBootIn.start (toXilinxBoot_quiet hboot.quiet)).trans hafter.1
    exact ⟨over_step (running_quiet hboot.quiet (h.running (u + 1) (Nat.succ_pos u))) hstart hover,
      hstep u hafter⟩

/-- A loader that reads has not seen DONE. -/
theorem unseen_of_readFifo (h : FlashRun content s inp l) {t T : ℕ}
    (hread : (core s inp (t + 1)).xldr.state = .readFifo) (hbefore : Unseen s inp T)
    (hsees : SeesDoneAt s inp T) : t ≤ T := by
  by_contra hlate
  obtain ⟨n, -, -, -, hstands⟩ := stands_run h hbefore
  have hafter : After (core s inp (T + 1)).flash := by
    cases hstands with
    | waiting _ hs => exact absurd (hs.symm.trans hsees.1) (by decide)
    | opening hf => exact hf.after
    | abandoned hf => exact hf
    | loading hf => exact hf
  have hover := (over_run h hsees hafter (Nat.not_le.mp hlate)).1
  unfold Over at hover
  rw [hread] at hover
  exact absurd hover (by decide)

/-- So it is, or the loader sees DONE. -/
theorem samples_all_or_done (h : FlashRun content s inp l) {t : ℕ}
    (hread : (core s inp (t + 1)).xldr.state = .readFifo)
    (hflag : (core s inp (t + 1)).xldr.csrDone = false) :
    (∃ T, t ≤ T ∧ SeesDoneAt s inp T) ∨
      ∃ T, ∀ u, T ≤ u → pinSamples s inp 1 u =
        ((List.range 0x408001).map (bitstreamByte content)).flatMap byteBits := by
  by_cases hunseen : ∀ T, ¬ SeesDoneAt s inp T
  · have hshift : Shifting (core s inp (t + 1)).xldr := by
      unfold Shifting
      rw [hread]
      trivial
    right
    rw [List.flatMap_map]
    exact samples_all h hunseen (reads_of_shifting h hunseen hshift hflag)
  · obtain ⟨v, hv⟩ := Classical.not_forall_not.mp hunseen
    obtain ⟨T, -, -, hT, hbefore⟩ := exists_first (P := fun T => SeesDoneAt s inp T) (Nat.zero_le v) hv
    exact .inl ⟨T, unseen_of_readFifo h hread (fun j hj => hbefore j (Nat.zero_le j) hj) hT, hT⟩

end Run

/-- A boot from the flash in which the loader comes to read, without its DONE flag, comes to its end,
however long the transfers take: the loader sees DONE while it shifts a byte out, or the CCLK edges
sample the bits of all `c_BITSTREAM_SIZE + 1` bytes of the bitstream file in order, and nothing after
them. -/
theorem boot_completes (P : Parts) (content : BitVec 24 → Byte) (s : Regs P) (inp : ℕ → In)
    (l : ℕ → SpiLink) (h : FlashRun content s inp l) (t : ℕ)
    (hread : (core s inp (t + 1)).xldr.state = .readFifo)
    (hflag : (core s inp (t + 1)).xldr.csrDone = false) :
    (∃ T, t ≤ T ∧ SeesDoneAt s inp T) ∨
      ∃ T, ∀ u, T ≤ u → pinSamples s inp 1 u =
        ((List.range 0x408001).map (bitstreamByte content)).flatMap byteBits :=
  samples_all_or_done h hread hflag

/-- The emulated flash. -/
theorem boot_completes_signed : ∃ T, ∀ u, T ≤ u → pinSamples (powerUp signedFlash) aloneIn 1 u =
    ((List.range 0x408001).map (bitstreamByte signedFlash)).flatMap byteBits := by
  have hread : (core (powerUp signedFlash) aloneIn 1403).xldr.state = .readFifo ∧
      (core (powerUp signedFlash) aloneIn 1403).xldr.csrDone = false := by decide +kernel
  have h := boot_completes _ signedFlash _ aloneIn _ (alone_flashRun signedFlash _) 1402 hread.1 hread.2
  refine h.resolve_left ?_
  rintro ⟨T, -, hT⟩
  exact alone_unseen signedFlash T hT

end Svec.Boot.FlashFinish
