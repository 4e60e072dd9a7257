/-
  Boot/Trigger.lean --- when the trigger sequence triggers.

  The detector of BTRIGR is a restart matcher: a byte that does not continue the
  sequence sends it back to the start and is not looked at again.  So it sees the
  sequence exactly when the writes before it, back to the reset, are whole
  attempts, each one either complete or spoilt by its last byte.
-/
import Svec.Hdl.BootTrigger

set_option autoImplicit false

namespace Svec.Boot.Trigger

open Svec.Data Svec.Sync Svec.Hdl
open Svec.Hdl.BootTrigger (In Regs pDetectBootTrigger triggerSequence bootTrigP1)
open Svec.Data.Matcher (Attempts position)

/-- The bytes written to BTRIGR in the first `t` cycles, since the last reset. -/
def history (inp : ℕ → In) : ℕ → List Byte
  | 0 => []
  | t + 1 =>
    if !(inp t).rstN then []
    else if (inp t).btrigrWr then history inp t ++ [(inp t).btrigr]
    else history inp t

/-- Successive writes are at least two clock cycles apart. -/
def Spaced (inp : ℕ → In) : Prop :=
  ∀ t, (inp t).btrigrWr = true → (inp (t + 1)).btrigrWr = false

/-- Between the cycles `t` and `u` there is neither a write nor a reset. -/
def Quiet (inp : ℕ → In) (t u : ℕ) : Prop :=
  ∀ v, t < v → v < u → (inp v).rstN = true ∧ (inp v).btrigrWr = false

/-- `boot_trig_p1_o` pulses after cycle `t`, before the next write. -/
def Pulses (inp : ℕ → In) (noBitstream : ℕ → Bool) (t : ℕ) : Prop :=
  ∃ u, t < u ∧ Quiet inp t u ∧
    bootTrigP1 (run pDetectBootTrigger BootTrigger.reset inp u) (noBitstream u) = true

section Detector

variable {inp : ℕ → In}

theorem history_write {t : ℕ} (hr : (inp t).rstN = true) (hw : (inp t).btrigrWr = true) :
    history inp (t + 1) = history inp t ++ [(inp t).btrigr] := by
  simp [history, hr, hw]

/-- The pulse register, at every cycle of a run. -/
theorem tword0_of_trig_run (t : ℕ) :
    (run pDetectBootTrigger BootTrigger.reset inp t).bootTrigP1Int = true →
      (run pDetectBootTrigger BootTrigger.reset inp t).bootState = .tword0 :=
  invariant_run (I := fun r : Regs => r.bootTrigP1Int = true → r.bootState = .tword0)
    (A := fun _ _ => True) (fun h => absurd h (by decide))
    (fun _ _ hinv _ => BootTrigger.tword0_of_trig hinv) (fun _ => trivial) t

theorem trig_succ_iff (t : ℕ) :
    (run pDetectBootTrigger BootTrigger.reset inp (t + 1)).bootTrigP1Int = true ↔
      (inp t).rstN = true ∧ (run pDetectBootTrigger BootTrigger.reset inp t).bootState = .bootReady :=
  BootTrigger.trig_step (tword0_of_trig_run t)

/-- `BOOT_READY` is reached by a write. -/
theorem write_of_bootReady {t : ℕ}
    (h : (run pDetectBootTrigger BootTrigger.reset inp t).bootState = .bootReady) :
    ∃ v, t = v + 1 ∧ (inp v).rstN = true ∧ (inp v).btrigrWr = true := by
  cases t with
  | zero => simp [BootTrigger.reset] at h
  | succ v =>
    obtain ⟨hr, hw, -, -⟩ := BootTrigger.bootReady_step.mp h
    exact ⟨v, rfl, hr, hw⟩

/-- With the writes two cycles apart the detector is a matcher of the bytes written. -/
theorem index_run (hspaced : Spaced inp) (t : ℕ) :
    (run pDetectBootTrigger BootTrigger.reset inp t).bootState.index =
      position triggerSequence (history inp t) := by
  induction t with
  | zero => rfl
  | succ t ih =>
    rw [run_succ, history]
    cases hr : (inp t).rstN with
    | false => simp [pDetectBootTrigger, hr, BootTrigger.BootseqState.index]
    | true =>
      by_cases hs : (run pDetectBootTrigger BootTrigger.reset inp t).bootState = .bootReady
      · -- A write in this cycle would be lost, but the one before it is too close.
        obtain ⟨v, rfl, -, hwv⟩ := write_of_bootReady hs
        have hw := hspaced v hwv
        rw [hs] at ih
        simp [pDetectBootTrigger, hr, hs, hw, BootTrigger.BootseqState.index, ← ih]
      · rw [BootTrigger.index_step hr hs, ih]
        cases hw : (inp t).btrigrWr with
        | false => simp
        | true => simp [Matcher.position_concat]

/-- The detector is in `BOOT_READY` after the last byte of the sequence exactly when the
matcher was at the beginning before the first. -/
theorem bootReady_iff (hspaced : Spaced inp) {t : ℕ} {h : List Byte}
    (hwr : (inp t).btrigrWr = true) (hh : history inp (t + 1) = h ++ triggerSequence) :
    (run pDetectBootTrigger BootTrigger.reset inp (t + 1)).bootState = .bootReady ↔
      Attempts triggerSequence h := by
  have hne : triggerSequence ≠ [] := by decide
  have hrst : (inp t).rstN = true := by
    cases hr : (inp t).rstN with
    | true => rfl
    | false => simp [history, hr, triggerSequence] at hh
  rw [history_write hrst hwr] at hh
  have hsplit : h ++ triggerSequence = (h ++ triggerSequence.dropLast) ++ [0xbe#8] := by
    rw [List.append_assoc]
    rfl
  rw [hsplit] at hh
  obtain ⟨hprev, hbyte⟩ := List.append_inj' hh rfl
  have hidx := index_run hspaced t
  rw [hprev] at hidx
  rw [run_succ, BootTrigger.bootReady_step, ← Matcher.position_eq_zero_iff hne]
  constructor
  · rintro ⟨-, -, hs, -⟩
    by_contra hin
    have hmiss : position triggerSequence (h ++ triggerSequence.dropLast) = 0 :=
      Matcher.position_append_missed (a := 0xde#8) (by decide) hin
        (m := triggerSequence.dropLast.tail) ⟨[0xbe#8], rfl⟩
    rw [hs, hmiss] at hidx
    exact absurd hidx (by decide)
  · intro h0
    refine ⟨hrst, hwr, ?_, by simpa using hbyte⟩
    have h7 : position triggerSequence (h ++ triggerSequence.dropLast) = 7 := by
      rw [Matcher.position_append, h0]
      rfl
    rw [h7] at hidx
    cases hs : (run pDetectBootTrigger BootTrigger.reset inp t).bootState <;> rw [hs] at hidx <;>
      first | rfl | exact absurd hidx (by decide)

/-- After a write and before the next one the detector can pulse in one cycle only. -/
theorem trig_of_quiet (hspaced : Spaced inp) {t u : ℕ} (hwr : (inp t).btrigrWr = true) (htu : t < u)
    (hquiet : Quiet inp t u)
    (htrig : (run pDetectBootTrigger BootTrigger.reset inp u).bootTrigP1Int = true) :
    u = t + 2 ∧ (run pDetectBootTrigger BootTrigger.reset inp (t + 1)).bootState = .bootReady := by
  obtain ⟨w, rfl⟩ : ∃ w, u = w + 1 := ⟨u - 1, by omega⟩
  obtain ⟨-, hready⟩ := (trig_succ_iff w).mp htrig
  obtain ⟨v, rfl, -, hwv⟩ := write_of_bootReady hready
  rcases Nat.lt_trichotomy v t with hlt | rfl | hgt
  · have hvt : v + 1 = t := by omega
    rw [← hvt, hspaced v hwv] at hwr
    exact absurd hwr (by decide)
  · exact ⟨rfl, hready⟩
  · rw [(hquiet v hgt (by omega)).2] at hwv
    exact absurd hwv (by decide)

end Detector

/-- A waveform that writes the given bytes, one every two cycles. -/
def writes (bytes : List Byte) (t : ℕ) : In :=
  match (if t % 2 = 0 then bytes[t / 2]? else none) with
  | some b => ⟨true, true, b⟩
  | none => ⟨true, false, 0#8⟩

theorem writes_rstN (bytes : List Byte) (t : ℕ) : (writes bytes t).rstN = true := by
  unfold writes
  split <;> rfl

theorem writes_spaced (bytes : List Byte) : Spaced (writes bytes) := by
  intro t ht
  by_cases heven : t % 2 = 0
  · have hodd : ¬ (t + 1) % 2 = 0 := by omega
    simp [writes, hodd]
  · simp [writes, heven] at ht

/-- The sequence is missed when the one write before it was its own first byte. -/
theorem trigger_missed_after_de :
    ¬ ∀ (inp : ℕ → In) (t : ℕ) (h : List Byte), Spaced inp → (∀ v, (inp v).rstN = true) →
      (inp t).btrigrWr = true → history inp (t + 1) = h ++ triggerSequence →
      Pulses inp (fun _ => false) t := by
  intro hall
  have hspaced := writes_spaced (0xde#8 :: triggerSequence)
  obtain ⟨u, htu, hquiet, htrig⟩ := hall (writes (0xde#8 :: triggerSequence)) 16 [0xde#8] hspaced
    (writes_rstN _) (by decide) (by decide)
  have hint : (run pDetectBootTrigger BootTrigger.reset (writes (0xde#8 :: triggerSequence)) u).bootTrigP1Int
      = true := by simpa [bootTrigP1] using htrig
  have hready := (trig_of_quiet hspaced (by decide) htu hquiet hint).2
  exact absurd hready (by decide)

/-- After the eighth write of the sequence `boot_trig_p1_o` pulses exactly when the writes
before the eight, back to the last reset, are whole attempts (or the flash boot engine
happens to report no bitstream). -/
theorem trigger_pulses_iff (inp : ℕ → In) (noBitstream : ℕ → Bool) (t : ℕ) (h : List Byte)
    (hspaced : Spaced inp) (hwr : (inp t).btrigrWr = true) (hrst : (inp (t + 1)).rstN = true)
    (hh : history inp (t + 1) = h ++ triggerSequence) :
    Pulses inp noBitstream t ↔
      Attempts triggerSequence h ∨ ∃ u, t < u ∧ Quiet inp t u ∧ noBitstream u = true := by
  constructor
  · rintro ⟨u, htu, hquiet, htrig⟩
    rcases Bool.or_eq_true_iff.mp htrig with hint | hflash
    · exact Or.inl ((bootReady_iff hspaced hwr hh).mp (trig_of_quiet hspaced hwr htu hquiet hint).2)
    · exact Or.inr ⟨u, htu, hquiet, hflash⟩
  · rintro (hsettled | ⟨u, htu, hquiet, hflash⟩)
    · refine ⟨t + 2, by omega, fun v htv hvu => ?_, ?_⟩
      · obtain rfl : v = t + 1 := by omega
        exact ⟨hrst, hspaced t hwr⟩
      · have hready := (bootReady_iff hspaced hwr hh).mpr hsettled
        have hint := (trig_succ_iff (t + 1)).mpr ⟨hrst, hready⟩
        rw [bootTrigP1, hint]
        rfl
    · refine ⟨u, htu, hquiet, ?_⟩
      rw [bootTrigP1, hflash, Bool.or_true]

/-- The first byte of the sequence and then a wrong one are a whole attempt. -/
theorem attempts_spoilt : Attempts triggerSequence [0xde#8, 0x00#8] :=
  Matcher.attempts_nil.concat (Or.inr ⟨1, 0x00#8, by decide, by decide, rfl⟩)

/-- One pass of the sequence after an attempt that was spoilt. -/
theorem trigger_pulses_iff_spoilt :
    Pulses (writes ([0xde#8, 0x00#8] ++ triggerSequence)) (fun _ => false) 18 :=
  (trigger_pulses_iff (writes ([0xde#8, 0x00#8] ++ triggerSequence)) (fun _ => false) 18 [0xde#8, 0x00#8]
    (writes_spaced _) (by decide) (writes_rstN _ _) (by decide)).mpr (Or.inl attempts_spoilt)

end Svec.Boot.Trigger
