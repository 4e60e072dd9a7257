/-
  Boot/Activation.lean --- what enables the bootloader.

  A trigger starts the erase pulse, and `boot_en` rises on the falling edge of the
  pulse.  The edge is seen with a register, `erase_afpga_n_d0`, that the reset of
  the design leaves alone: a reset in the middle of the pulse ends the pulse, and
  the register that still holds a one makes an edge of that.
-/
import Svec.Hdl.SfpgaTop
import Svec.Boot.Trigger

set_option autoImplicit false

namespace Svec.Boot.Activation

open Svec.Data Svec.Sync Svec.Hdl Svec.Hdl.SfpgaTop
open Svec.Hdl.BootTrigger (triggerSequence)

/-! ## The trigger -/

section Detector

variable {r : ℕ → BootTrigger.Regs} {i : ℕ → BootTrigger.In}

/-- The pulse register is set in `BOOT_READY` only. -/
theorem trig_of_step {r : BootTrigger.Regs} {i : BootTrigger.In}
    (h : (BootTrigger.pDetectBootTrigger r i).bootTrigP1Int = true) :
    r.bootState = .bootReady ∨ r.bootTrigP1Int = true := by
  obtain ⟨st, trig⟩ := r
  cases hr : i.rstN with
  | false => simp [BootTrigger.pDetectBootTrigger, hr] at h
  | true => cases st <;> simp_all [BootTrigger.pDetectBootTrigger]

/-- Since a reset the state of the detector is what the bytes written end with, and it
pulses only if these ended with the trigger sequence at some point. -/
theorem detector_run (hrun : ∀ t, r (t + 1) = BootTrigger.pDetectBootTrigger (r t) (i t)) {u : ℕ}
    (hu : (i u).rstN = false) {t : ℕ} (hut : u < t) :
    triggerSequence.take (r t).bootState.index <:+ Trigger.history i t ∧
      ((r t).bootState = .bootReady → triggerSequence <:+ Trigger.history i t) ∧
      ((r t).bootTrigP1Int = true →
        ∃ v, u < v ∧ v ≤ t ∧ triggerSequence <:+ Trigger.history i v) := by
  induction hut with
  | refl => simp [hrun, BootTrigger.pDetectBootTrigger, hu, BootTrigger.BootseqState.index]
  | @step t hut ih =>
    obtain ⟨hidx, hready, htrig⟩ := ih
    refine ⟨?_, ?_, ?_⟩
    · rw [hrun]
      cases hr : (i t).rstN with
      | false => simp [BootTrigger.pDetectBootTrigger, hr, BootTrigger.BootseqState.index]
      | true =>
        by_cases hs : (r t).bootState = .bootReady
        · simp [BootTrigger.pDetectBootTrigger, hr, hs, BootTrigger.BootseqState.index]
        · rw [BootTrigger.index_step hr hs, Trigger.history, hr]
          cases hw : (i t).btrigrWr with
          | false => simpa using hidx
          | true => simpa using Matcher.take_advance_suffix hidx (i t).btrigr
    · intro hnext
      rw [hrun] at hnext
      obtain ⟨hr, hw, hs, hbyte⟩ := BootTrigger.bootReady_step.mp hnext
      rw [hs] at hidx
      obtain ⟨d, hd⟩ := hidx
      refine ⟨d, ?_⟩
      rw [Trigger.history_write hr hw, hbyte, ← hd, List.append_assoc]
      rfl
    · intro hnext
      rw [hrun] at hnext
      rcases trig_of_step hnext with hs | ht
      · exact ⟨t, hut, Nat.le_succ t, hready hs⟩
      · obtain ⟨v, huv, hvt, hsuf⟩ := htrig ht
        exact ⟨v, huv, Nat.le_succ_of_le hvt, hsuf⟩

end Detector

variable {P : Parts} {s : Regs P} {inp : ℕ → In}

/-- The bytes accepted by BTRIGR in the first `t` cycles, since the last reset. -/
def btrigrHistory (s : Regs P) (inp : ℕ → In) : ℕ → List Byte :=
  Trigger.history fun t => Bootloader.trigIn (core s inp t).boot (bootIn (core s inp t) (inp t))

/-- By cycle `e` there is a reason to activate the bootloader: since cycle `u` the last eight
bytes accepted by BTRIGR were the trigger sequence at some point, or the flash boot engine
reports no bitstream. -/
def Reason (s : Regs P) (inp : ℕ → In) (u e : ℕ) : Prop :=
  (∃ v, u < v ∧ v ≤ e ∧ triggerSequence <:+ btrigrHistory s inp v) ∨
    (core s inp e).boot.flash.noBitstreamP1 = true

/-- The trigger pulses for a reason. -/
theorem reason_of_trig {u e : ℕ} (hu : (inp u).rstN = false) (hue : u < e)
    (h : bootTrigP1 (core s inp e) = true) : Reason s inp u e := by
  rcases Bool.or_eq_true_iff.mp h with hint | hflash
  · refine Or.inl ((detector_run (r := fun t => (core s inp t).boot.trig)
      (i := fun t => Bootloader.trigIn (core s inp t).boot (bootIn (core s inp t) (inp t)))
      (fun _ => rfl) hu hue).2.2 hint)
  · exact Or.inr hflash

/-! ## From the trigger to the enable -/

/-- Cycle `u` is the last cycle of the most recent reset before cycle `t`. -/
def LastReset (inp : ℕ → In) (u t : ℕ) : Prop :=
  (inp u).rstN = false ∧ u < t ∧ ∀ k, u < k → k < t → (inp k).rstN = true

/-- The erase pulse has run since the reason in cycle `e`, and the bootloader was not
enabled since the reset in cycle `u`. -/
structure Erased (s : Regs P) (inp : ℕ → In) (u e t : ℕ) : Prop where
  after : u < e
  reason : Reason s inp u e
  erasing : ∀ k, e < k → k < t → bootConfig (core s inp k) (inp k) = false
  disabled : ∀ k, u < k → k ≤ t → (core s inp k).bootEn = false

/-- Since the reset in cycle `u` the bootloader was activated: there was a reason in some
cycle `e`, PROG_B was low for the whole erase pulse after it, up to cycle `f`, and
`boot_en` was low until then. -/
def Activated (s : Regs P) (inp : ℕ → In) (u t : ℕ) : Prop :=
  ∃ e f, e + cEraseWidth < f ∧ f < t ∧ Erased s inp u e f ∧
    eraseAfpgaN (core s inp f) (inp f) = false

/-- How far the activation is since the reset in cycle `u`. -/
inductive Progress (s : Regs P) (inp : ℕ → In) (u t : ℕ) : Prop where
  | waiting (hen : ∀ k, u < k → k ≤ t → (core s inp k).bootEn = false)
      (hrem : P.extend.remaining (core s inp t).extend = 0)
      (hd0 : (core s inp t).eraseAfpgaND0 = false)
  | erasing (e : ℕ) (het : e < t) (herased : Erased s inp u e t)
      (hrem : e + cEraseWidth < P.extend.remaining (core s inp t).extend + t)
  | activated (h : Activated s inp u t)

theorem Activated.succ {u t : ℕ} (h : Activated s inp u t) : Activated s inp u (t + 1) := by
  obtain ⟨e, f, hef, hft, h⟩ := h
  exact ⟨e, f, hef, Nat.lt_succ_of_lt hft, h⟩

/-- After a reset nothing is under way, provided the reset did not cut an erase pulse. -/
theorem progress_start {u : ℕ} (hu : (inp u).rstN = false)
    (hd0 : (core s inp u).eraseAfpgaND0 = false) : Progress s inp u (u + 1) := by
  refine .waiting (fun k huk hk => ?_) ?_ ?_
  · obtain rfl : k = u + 1 := by omega
    exact bootEn_reset hu
  · rw [core_succ, step_remaining, hu]
    rfl
  · exact (eraseAfpgaND0_reset hu).trans hd0

theorem progress_step {u t : ℕ} (hu : (inp u).rstN = false) (hut : u < t)
    (hr : (inp t).rstN = true) (h : Progress s inp u t) : Progress s inp u (t + 1) := by
  have herase : eraseAfpgaN (core s inp t) (inp t)
      = decide (0 < P.extend.remaining (core s inp t).extend) := by
    rw [eraseAfpgaN_eq, hr, Bool.true_and]
  have hrem' : P.extend.remaining (core s inp (t + 1)).extend =
      if bootTrigP1 (core s inp t) then cEraseWidth
      else P.extend.remaining (core s inp t).extend - 1 := by
    rw [core_succ, step_remaining, hr]
    rfl
  -- A cycle in which `boot_en` stays low.
  have hlow : (!eraseAfpgaN (core s inp t) (inp t) && (core s inp t).eraseAfpgaND0) = false →
      (∀ k, u < k → k ≤ t → (core s inp k).bootEn = false) →
      ∀ k, u < k → k ≤ t + 1 → (core s inp k).bootEn = false := by
    intro hedge hen k huk hk
    rcases Nat.le_succ_iff.mp hk with hk | rfl
    · exact hen k huk hk
    · exact bootEn_stays (r := core s inp t) (hen t hut (Nat.le_refl t)) fun _ => hedge
  cases h with
  | waiting hen hrem hd0 =>
    have hen' := hlow (by rw [hd0, Bool.and_false]) hen
    cases htrig : bootTrigP1 (core s inp t) with
    | false =>
      refine .waiting hen' (by rw [hrem', htrig, hrem]; rfl) ?_
      rw [core_succ, eraseAfpgaND0_step hr, herase, hrem]
      rfl
    | true =>
      refine .erasing t (Nat.lt_succ_self t) ⟨hut, reason_of_trig hu hut htrig, ?_, hen'⟩ ?_
      · intro k htk hkt
        omega
      · rw [hrem', htrig, if_pos rfl]
        omega
  | erasing e het herased hrem =>
    rcases Nat.eq_zero_or_pos (P.extend.remaining (core s inp t).extend) with h0 | hpos
    · refine .activated ⟨e, t, by omega, Nat.lt_succ_self t, herased, ?_⟩
      rw [herase, h0]
      rfl
    · have hon : eraseAfpgaN (core s inp t) (inp t) = true := by
        rw [herase]
        exact decide_eq_true hpos
      refine .erasing e (Nat.lt_succ_of_lt het) ⟨herased.after, herased.reason, ?_, ?_⟩ ?_
      · intro k hek hkt
        rcases Nat.lt_succ_iff_lt_or_eq.mp hkt with hkt | rfl
        · exact herased.erasing k hek hkt
        · rw [bootConfig, hon, Bool.not_true, Bool.and_false]
      · exact hlow (by rw [hon]; rfl) herased.disabled
      · rw [hrem']
        split <;> omega
  | activated h => exact .activated h.succ

theorem progress_run {u t : ℕ} (hlast : LastReset inp u t)
    (hd0 : (core s inp u).eraseAfpgaND0 = false) : Progress s inp u t := by
  obtain ⟨hu, hut, hrun⟩ := hlast
  induction hut with
  | refl => exact progress_start hu hd0
  | @step t hut ih =>
    exact progress_step hu hut (hrun t hut (Nat.lt_succ_self t))
      (ih fun k huk hkt => hrun k huk (Nat.lt_succ_of_lt hkt))

/-- A reset that cuts an erase pulse enables the bootloader. -/
theorem bootEn_of_cut {u : ℕ} (hu : (inp u).rstN = false) (hu' : (inp (u + 1)).rstN = true)
    (hd0 : (core s inp u).eraseAfpgaND0 = true) : (core s inp (u + 2)).bootEn = true := by
  have hrem : P.extend.remaining (core s inp (u + 1)).extend = 0 := by
    rw [core_succ, step_remaining, hu]
    rfl
  have hd0' : (core s inp (u + 1)).eraseAfpgaND0 = true := (eraseAfpgaND0_reset hu).trans hd0
  rw [core_succ, step_bootEn, pEnableDisableBootloader, hu', eraseAfpgaN_eq, hrem, hd0']
  simp

/-- A card with a blank flash: the flash boot engine reports no bitstream, and the second
reset falls into the erase pulse. -/
def resetInErasePulse (t : ℕ) : In := In.idle (!(t = 0 || t = 145))

/-- The reset enables the bootloader before the erase pulse is over, and without a reason
since the reset. -/
theorem enabled_by_reset :
    ¬ ∀ (P : Parts) (s : Regs P) (inp : ℕ → In) (u t : ℕ), LastReset inp u t →
      (core s inp t).bootEn = true → Activated s inp u t := by
  intro hall
  have hlast : LastReset resetInErasePulse 145 147 := ⟨rfl, by decide, fun k hk hk' => by
    obtain rfl : k = 146 := by omega
    rfl⟩
  have hd0 : (core (powerUp fun _ => 0xff#8) resetInErasePulse 145).eraseAfpgaND0 = true := by
    decide +kernel
  obtain ⟨e, f, hef, hf, herased, -⟩ := hall (standIns fun _ => 0xff#8) (powerUp fun _ => 0xff#8)
    resetInErasePulse 145 147 hlast (bootEn_of_cut (u := 145) rfl rfl hd0)
  have := herased.after
  omega

/-- `boot_en` is high only after a reason to activate the bootloader and the whole erase
pulse after it, since the most recent reset, exactly if no reset ends with
`erase_afpga_n_d0` high. -/
theorem bootEn_only_activated_iff (P : Parts) (s : Regs P) (inp : ℕ → In) :
    (∀ u t, LastReset inp u t → (core s inp t).bootEn = true → Activated s inp u t) ↔
      ∀ u, (inp u).rstN = false → (inp (u + 1)).rstN = true →
        (core s inp u).eraseAfpgaND0 = false := by
  constructor
  · intro hall u hu hu'
    cases hd0 : (core s inp u).eraseAfpgaND0 with
    | false => rfl
    | true =>
      exfalso
      have hlast : LastReset inp u (u + 2) := ⟨hu, by omega, fun k huk hk => by
        obtain rfl : k = u + 1 := by omega
        exact hu'⟩
      obtain ⟨e, f, hef, hft, herased, -⟩ := hall u (u + 2) hlast (bootEn_of_cut hu hu' hd0)
      have := herased.after
      omega
  · intro hd0 u t hlast hen
    obtain ⟨hu, hut, hrun⟩ := hlast
    rcases Nat.lt_or_ge (u + 1) t with hlt | hge
    · have hprog := progress_run ⟨hu, hut, hrun⟩ (hd0 u hu (hrun (u + 1) (Nat.lt_succ_self u) hlt))
      cases hprog with
      | waiting hdis _ _ => exact absurd hen (by rw [hdis t hut (Nat.le_refl t)]; decide)
      | erasing e _ herased _ =>
        exact absurd hen (by rw [herased.disabled t hut (Nat.le_refl t)]; decide)
      | activated h => exact h
    · obtain rfl : t = u + 1 := by omega
      exact absurd hen (by rw [core_succ, bootEn_reset hu]; decide)

end Svec.Boot.Activation
