/-
  Loader/Handshake.lean --- the slave-serial handshake before the first clock.

  An accepted START pulls PROG_B low for longer than the FPGA needs, INIT_B answers
  with a low and, after PROG_B is released, with a high; the first rising edge of
  CCLK comes after that.  The invariant says how far the handshake is in each
  state of the loader, and the abort and restart points all go through `IDLE`.
-/
import Svec.Loader.Moves

set_option autoImplicit false

namespace Svec.Loader.Handshake

open Svec.Data Svec.Sync Svec.Hdl Svec.Loader
open Svec.Hdl.XilinxLoader (Regs In State cMinProgDelay cInitTimeout)

variable {s : Regs} {inp : ℕ → In}

/-- The loader accepts a START. -/
def Accepts (r : Regs) (i : In) : Prop := i.Running ∧ r.state = .idle ∧ i.csrStart = true

/-- PROG_B is low after the START in cycle `u` up to cycle `v`, in which INIT_B is sampled
low, and more than `c_MIN_PROG_DELAY` cycles before it; from then on to cycle `t` PROG_B is
released. -/
structure Answered (s : Regs) (inp : ℕ → In) (u v t : ℕ) : Prop where
  pulse : u + 1 + cMinProgDelay.toNat < v
  low : ∀ k, u < k → k ≤ v → (loader s inp k).xlxProgramB = false
  initLow : (inp v).initBSynced = false
  before : v < t
  released : ∀ k, v < k → k ≤ t → (loader s inp k).xlxProgramB = true

/-- The whole handshake: after the release INIT_B is sampled high. -/
def Done (s : Regs) (inp : ℕ → In) (u t : ℕ) : Prop :=
  ∃ v w, Answered s inp u v t ∧ v < w ∧ w < t ∧ (inp w).initBSynced = true

/-- The states in which bits are shifted or the end of the configuration is handled. -/
def Loading (st : State) : Prop :=
  st = .readFifo ∨ st = .readFifo2 ∨ st = .outputBit ∨ st = .clockEdge ∨ st = .waitDone ∨
    st = .gotDone ∨ st = .startupCclk0 ∨ st = .startupCclk1

instance (st : State) : Decidable (Loading st) := inferInstanceAs (Decidable (_ ∨ _))

/-- How far the handshake is since the START in cycle `u`. -/
inductive Phase (s : Regs) (inp : ℕ → In) (u t : ℕ) : Prop where
  | pulsing (hs : (loader s inp t).state = .extendProg)
      (hcount : (loader s inp t).timeoutCounter.toNat + t = u + 1 + cMinProgDelay.toNat)
      (low : ∀ k, u < k → k ≤ t → (loader s inp k).xlxProgramB = false)
  | waiting (hs : (loader s inp t).state = .waitInit) (hpulse : u + 1 + cMinProgDelay.toNat < t)
      (low : ∀ k, u < k → k ≤ t → (loader s inp k).xlxProgramB = false)
  | answered (v : ℕ) (hs : (loader s inp t).state = .waitInit2) (h : Answered s inp u v t)
  | loading (hs : Loading (loader s inp t).state) (h : Done s inp u t)

/-! ## One cycle -/

section Step

variable {u t : ℕ}

/-- PROG_B keeps its level for one more cycle. -/
theorem level_succ {b : Bool} {v : ℕ} (h : ∀ k, v < k → k ≤ t → (loader s inp k).xlxProgramB = b)
    (hnext : (loader s inp (t + 1)).xlxProgramB = b) :
    ∀ k, v < k → k ≤ t + 1 → (loader s inp k).xlxProgramB = b := by
  intro k hvk hk
  rcases Nat.le_succ_iff.mp hk with hk | rfl
  · exact h k hvk hk
  · exact hnext

theorem Answered.succ {v : ℕ} (h : Answered s inp u v t)
    (hnext : (loader s inp (t + 1)).xlxProgramB = (loader s inp t).xlxProgramB) :
    Answered s inp u v (t + 1) :=
  { h with
    before := Nat.lt_succ_of_lt h.before
    released := level_succ h.released (hnext.trans (h.released t h.before (Nat.le_refl t))) }

theorem Done.succ (h : Done s inp u t)
    (hnext : (loader s inp (t + 1)).xlxProgramB = (loader s inp t).xlxProgramB) :
    Done s inp u (t + 1) := by
  obtain ⟨v, w, hans, hvw, hwt, hhigh⟩ := h
  exact ⟨v, w, hans.succ hnext, hvw, Nat.lt_succ_of_lt hwt, hhigh⟩

/-- The START pulls PROG_B low. -/
theorem phase_start (h : Accepts (loader s inp u) (inp u)) : Phase s inp u (u + 1) := by
  obtain ⟨hrun, hs, hstart⟩ := h
  cases moves_run s inp u with
  | start _ _ _ hc out =>
    refine .pulsing out.state ?_ fun k huk hk => ?_
    · rw [hc]
      omega
    · obtain rfl : k = u + 1 := by omega
      exact out.programB
  | reset hr _ => exact absurd hr hrun.not_reset
  | rest _ _ hno _ =>
    rw [hstart] at hno
    exact absurd hno (by decide)
  | _ _ hs' => simp [hs] at hs'

/-- After the handshake PROG_B stays released. -/
theorem Done.load (h : Done s inp u t) {st : State} {d e c : Bool}
    (out : Drives (loader s inp (t + 1)) st d e (loader s inp t).xlxProgramB c) (hst : Loading st) :
    Phase s inp u (t + 1) := by
  refine .loading ?_ (h.succ out.programB)
  rw [out.state]
  exact hst

/-- A cycle ends in `IDLE`, or the handshake of the same START goes on. -/
theorem phase_step (hut : u < t) (h : Phase s inp u t) :
    (loader s inp (t + 1)).state = .idle ∨ Phase s inp u (t + 1) := by
  cases h with
  | pulsing hs hcount low =>
    have hlow := low t hut (Nat.le_refl t)
    cases moves_run s inp t with
    | reset _ out => exact .inl out.state
    | extend _ _ hne hc out =>
      refine .inr (.pulsing out.state ?_ (level_succ low (out.programB.trans hlow)))
      have hpred := sub_one_toNat hne
      rw [hc]
      omega
    | extended _ _ hz _ out =>
      refine .inr (.waiting out.state ?_ (level_succ low (out.programB.trans hlow)))
      rw [hz] at hcount
      have hzero : (0#21).toNat = 0 := rfl
      omega
    | _ _ hs' => simp [hs] at hs'
  | waiting hs hpulse low =>
    have hlow := low t hut (Nat.le_refl t)
    have hans : (inp t).initBSynced = false → (loader s inp (t + 1)).xlxProgramB = true →
        Answered s inp u t (t + 1) := by
      intro hb hp
      refine ⟨hpulse, low, hb, Nat.lt_succ_self t, fun k htk hk => ?_⟩
      obtain rfl : k = t + 1 := by omega
      exact hp
    cases moves_run s inp t with
    | reset _ out => exact .inl out.state
    | initWait _ _ _ _ _ out =>
      exact .inr (.waiting out.state (Nat.lt_succ_of_lt hpulse)
        (level_succ low (out.programB.trans hlow)))
    | initTimeout _ _ _ _ out => exact .inl out.state
    | initLow _ _ _ hb out => exact .inr (.answered t out.state (hans hb out.programB))
    | initLate _ _ _ hb out => exact .inr (.answered t out.state (hans hb out.programB))
    | _ _ hs' => simp [hs] at hs'
  | answered v hs hans =>
    cases moves_run s inp t with
    | reset _ out => exact .inl out.state
    | init2Wait _ _ _ out => exact .inr (.answered v out.state (hans.succ out.programB))
    | initHigh _ _ hb out =>
      refine .inr (.loading (by rw [out.state]; decide)
        ⟨v, t, hans.succ out.programB, hans.before, Nat.lt_succ_self t, hb⟩)
    | _ _ hs' => simp [hs] at hs'
  | loading hs hdone =>
    cases moves_run s inp t with
    | reset _ out => exact .inl out.state
    | fifoEmpty _ _ _ out => exact .inr (hdone.load out (by decide))
    | fifoRead _ _ _ out => exact .inr (hdone.load out (by decide))
    | hold _ _ _ _ out => exact .inr (hdone.load out hs)
    | entry _ _ _ out => exact .inr (hdone.load out (by decide))
    | bit _ _ _ _ out => exact .inr (hdone.load out (by decide))
    | gotDone _ _ _ _ out => exact .inr (hdone.load out (by decide))
    | edge _ _ _ hst _ out =>
      refine .inr (hdone.load out ?_)
      rcases hst with rfl | rfl | rfl <;> decide
    | doneWait _ _ _ _ out => exact .inr (hdone.load out (by decide))
    | doneSeen _ _ _ _ out => exact .inl out.state
    | doneTimeout _ _ _ out => exact .inl out.state
    | exitWait _ _ _ out => exact .inr (hdone.load out (by decide))
    | exit _ _ _ _ out => exact .inr (hdone.load out (by decide))
    | startupLow _ _ _ _ out => exact .inr (hdone.load out (by decide))
    | startupHigh _ _ _ _ out =>
      split at out
      · exact .inl out.state
      · exact .inr (hdone.load out (by decide))
    | _ _ hs' => simp [hs', Loading] at hs

end Step

/-! ## A whole run -/

theorem Phase.not_idle {u t : ℕ} (h : Phase s inp u t) : (loader s inp t).state ≠ .idle := by
  intro hidle
  cases h with
  | pulsing hs _ _ => simp [hidle] at hs
  | waiting hs _ _ => simp [hidle] at hs
  | answered _ hs _ => simp [hidle] at hs
  | loading hs _ => simp [hidle, Loading] at hs

/-- Out of `IDLE` there has been a START since the last time in `IDLE`, and its handshake is in
the phase of the state. -/
theorem phase_run {n : ℕ} (hn : (loader s inp n).state = .idle) {t : ℕ} (ht : n ≤ t) :
    (loader s inp t).state = .idle ∨
      ∃ u, n ≤ u ∧ u < t ∧ Accepts (loader s inp u) (inp u) ∧ Phase s inp u t ∧
        ∀ k, u < k → k ≤ t → (loader s inp k).state ≠ .idle := by
  induction ht with
  | refl => exact .inl hn
  | @step t hnt ih =>
    rcases ih with hidle | ⟨u, hnu, hut, hacc, hphase, hbusy⟩
    · by_cases hacc : Accepts (loader s inp t) (inp t)
      · have hphase := phase_start hacc
        refine .inr ⟨t, hnt, Nat.lt_succ_self t, hacc, hphase, fun k htk hk => ?_⟩
        obtain rfl : k = t + 1 := by omega
        exact hphase.not_idle
      · left
        cases moves_run s inp t with
        | reset _ out => exact out.state
        | start hrun hs h _ _ => exact absurd ⟨hrun, hs, h⟩ hacc
        | rest _ _ _ out => exact out.state
        | _ _ hs' => simp [hidle] at hs'
    · rcases phase_step hut hphase with hidle | hphase
      · exact .inl hidle
      · refine .inr ⟨u, hnu, Nat.lt_succ_of_lt hut, hacc, hphase, fun k huk hk => ?_⟩
        rcases Nat.le_succ_iff.mp hk with hk | rfl
        · exact hbusy k huk hk
        · exact hphase.not_idle

/-- A rising edge comes at the end of a handshake. -/
theorem done_of_rises {n : ℕ} (hn : (loader s inp n).state = .idle) {t : ℕ} (ht : n ≤ t)
    (hrise : Rises (loader s inp t) (loader s inp (t + 1))) :
    ∃ u, n ≤ u ∧ u < t ∧ Accepts (loader s inp u) (inp u) ∧ Done s inp u t := by
  obtain ⟨hrun, -, hstate⟩ := cclk_rises_only hrise.1 hrise.2
  rcases phase_run hn ht with hidle | ⟨u, hnu, hut, hacc, hphase, -⟩
  · rcases hstate with hs | hs <;> simp [hidle] at hs
  · refine ⟨u, hnu, hut, hacc, ?_⟩
    cases hphase with
    | pulsing hs _ _ => rcases hstate with hs' | hs' <;> simp [hs] at hs'
    | waiting hs _ _ => rcases hstate with hs' | hs' <;> simp [hs] at hs'
    | answered _ hs _ => rcases hstate with hs' | hs' <;> simp [hs] at hs'
    | loading _ h => exact h

/-- Every rising edge of CCLK after an accepted START comes after a whole handshake that
lies between the two, and no edge comes while PROG_B is low. -/
theorem cclk_after_handshake (s : Regs) (inp : ℕ → In) (h0 : (inp 0).rstN = false) :
    (∀ u t, Accepts (loader s inp u) (inp u) → u < t →
      Rises (loader s inp t) (loader s inp (t + 1)) →
      ∃ u', u ≤ u' ∧ u' < t ∧ Accepts (loader s inp u') (inp u') ∧ Done s inp u' t) ∧
    ∀ t, 0 < t → Rises (loader s inp t) (loader s inp (t + 1)) →
      (loader s inp t).xlxProgramB = true ∧ (loader s inp (t + 1)).xlxProgramB = true := by
  constructor
  · intro u t hacc hut hrise
    exact done_of_rises hacc.2.1 (Nat.le_of_lt hut) hrise
  · intro t ht hrise
    have hidle : (loader s inp 1).state = .idle := idle_of_reset h0
    obtain ⟨u, -, hut, -, v, w, hans, -, -, -⟩ := done_of_rises hidle ht hrise
    have hp := hans.released t hans.before (Nat.le_refl t)
    refine ⟨hp, ?_⟩
    obtain ⟨hrun, -, hstate⟩ := cclk_rises_only hrise.1 hrise.2
    cases moves_run s inp t with
    | edge _ _ _ _ _ out => rw [out.programB, hp]
    | startupHigh _ _ _ _ out => rw [out.programB, hp]
    | reset hr _ => exact absurd hr hrun.not_reset
    | hold _ _ _ _ out => rw [out.programB, hp]
    | _ _ hs' => rcases hstate with hs | hs <;> simp [hs] at hs'

/-- The first edge of a load in which INIT_B answers at once. -/
theorem cclk_after_handshake_short :
    ∃ u, 1 ≤ u ∧ u < 1008 ∧ Accepts (loader default (shortLoad false 2000) u) (shortLoad false 2000 u) ∧
      Done default (shortLoad false 2000) u 1008 :=
  (cclk_after_handshake default (shortLoad false 2000) rfl).1 1 1008 ⟨⟨rfl, rfl⟩, rfl, rfl⟩ (by decide)
    ⟨by decide +kernel, by decide +kernel⟩

end Svec.Loader.Handshake
