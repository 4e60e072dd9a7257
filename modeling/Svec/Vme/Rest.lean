/-
  Vme/Rest.lean --- how the core comes back to rest.

  With AS and DS released both latches are cleared in the next cycle, and every
  state that leads on to another reaches `IDLE` within five cycles.  `DECODE_ADDR`
  does not lead on without a valid address, so the core comes back exactly if the
  release does not find it on the way into that wait.
-/
import Svec.Vme.Ownership

set_option autoImplicit false

namespace Svec.Vme.Rest

open Svec.Data Svec.Sync Svec.Hdl Svec.Hdl.MiniVme
open Svec.Vme.Ownership (FallingPulse svecGenerics powerUp fallingPulse_of_bound)

/-- `IDLE`, reported as such, with DTACK and the data lines left alone. -/
structure AtRest (f : FsmRegs) : Prop where
  state : f.state = .idle
  idleO : f.idleO = true
  dtackOe : f.vmeDtackOe = false
  dataDir : f.vmeDataDir = false

/-- AS and DS are both inactive in the `n` cycles from `c` on, and there is no reset. -/
def Released (inp : ℕ → In) (c n : ℕ) : Prop :=
  ∀ t, c ≤ t → t < c + n →
    (inp t).rstN = true ∧ (inp t).asSynced = true ∧ (inp t).dsSynced = true

/-- The state machine enters `DECODE_ADDR` in this cycle, or it is there with no valid address
or with one that matches but is out of range. -/
def Parks (g : Generics) (r : Regs) : Prop :=
  (r.fsm.state = .idle ∧ r.addr.valid = true ∧ r.data.valid = true) ∨
    (r.fsm.state = .decodeAddr ∧
      (r.addr.valid = false ∨ (r.matched = true ∧ g.inRange r.addr.latched = false)))

/-! ## A released bus -/

variable {g : Generics} {r : Regs} {i : In}

/-- The bus in a cycle in which nothing is going on. -/
structure Quiet (i : In) : Prop where
  rstN : i.rstN = true
  asSynced : i.asSynced = true
  dsSynced : i.dsSynced = true
  asP1 : i.asP1 = false
  dsP1 : i.dsP1 = false

/-- Neither phase is latched. -/
def Cleared (r : Regs) : Prop := r.addr.valid = false ∧ r.data.valid = false

theorem cleared_step (hq : Quiet i) : Cleared (step g r i) := by
  constructor
  · rw [step_addr_valid, hq.asP1, hq.asSynced]
    simp
  · rw [step_data_valid, hq.dsP1, hq.dsSynced]
    simp

/-- At most `n` cycles to the rest. -/
inductive Settles : ℕ → FsmRegs → Prop where
  | rest {n : ℕ} {f : FsmRegs} (h : AtRest f) : Settles n f
  | idle {n : ℕ} {f : FsmRegs} (hs : f.state = .idle) : Settles (n + 1) f
  | dtack {n : ℕ} {f : FsmRegs} (hs : f.state = .dtack) : Settles (n + 2) f
  | waitAck {n : ℕ} {f : FsmRegs} (hs : f.state = .waitAck) : Settles (n + 3) f
  | execCycle {n : ℕ} {f : FsmRegs} (hs : f.state = .execCycle) : Settles (n + 4) f

theorem atRest_step (hq : Quiet i) (hc : Cleared r) (hs : r.fsm.state = .idle) :
    AtRest (pFsm g r i) := by
  constructor <;> simp [pFsm, hq.rstN, hs, hc.1]

theorem settles_step (hq : Quiet i) (hc : Cleared r) {n : ℕ} (h : Settles (n + 1) r.fsm) :
    Settles n (pFsm g r i) := by
  cases h with
  | rest h => exact .rest (atRest_step hq hc h.state)
  | idle hs => exact .rest (atRest_step hq hc hs)
  | dtack hs => exact .idle (by simp [pFsm, hq.rstN, hs, hq.asSynced, hq.dsSynced])
  | waitAck hs =>
    cases ha : i.masterI.ack with
    | true => exact .dtack (by simp [pFsm, hq.rstN, hs, ha])
    | false => exact .idle (by simp [pFsm, hq.rstN, hs, ha, hq.dsSynced])
  | execCycle hs => exact .waitAck (by simp [pFsm, hq.rstN, hs])

/-- Without a valid address `DECODE_ADDR` is not left. -/
theorem parked_step (hq : Quiet i) (hc : Cleared r) (hs : r.fsm.state = .decodeAddr) :
    (step g r i).fsm.state = .decodeAddr := by
  simp [step, pFsm, hq.rstN, hs, hc.1]

/-- The first cycle of the release decides. -/
theorem parks_step (hq : Quiet i) (h : Parks g r) : (step g r i).fsm.state = .decodeAddr := by
  rcases h with ⟨hs, ha, hd⟩ | ⟨hs, ha | ⟨hm, hin⟩⟩
  · simp [step, pFsm, hq.rstN, hs, ha, hd]
  · simp [step, pFsm, hq.rstN, hs, ha]
  · cases ha : r.addr.valid <;> simp [step, pFsm, hq.rstN, hs, ha, hm, hin]

theorem settles_first (hq : Quiet i) (h : ¬ Parks g r) : Settles 4 (step g r i).fsm := by
  cases hs : r.fsm.state with
  | idle =>
    have hv : (r.addr.valid && r.data.valid) = false := by
      cases ha : r.addr.valid <;> cases hd : r.data.valid
      all_goals first | rfl | exact absurd (Or.inl ⟨hs, ha, hd⟩) h
    exact .idle (by simp [step, pFsm, hq.rstN, hs, hv])
  | decodeAddr =>
    have ha : r.addr.valid = true := by
      by_contra ha
      exact h (.inr ⟨hs, .inl (by simpa using ha)⟩)
    cases hm : r.matched with
    | false => exact .idle (by simp [step, pFsm, hq.rstN, hs, ha, hm])
    | true =>
      have hin : g.inRange r.addr.latched = true := by
        by_contra hin
        exact h (.inr ⟨hs, .inr ⟨hm, by simpa using hin⟩⟩)
      exact .execCycle (by simp [step, pFsm, hq.rstN, hs, ha, hm, hin])
  | execCycle => exact .waitAck (by simp [step, pFsm, hq.rstN, hs])
  | waitAck =>
    cases ha : i.masterI.ack with
    | true => exact .dtack (by simp [step, pFsm, hq.rstN, hs, ha])
    | false => exact .idle (by simp [step, pFsm, hq.rstN, hs, ha, hq.dsSynced])
  | dtack => exact .idle (by simp [step, pFsm, hq.rstN, hs, hq.asSynced, hq.dsSynced])

/-! ## Runs -/

section Run

variable {s : Regs} {inp : ℕ → In}

theorem Released.quiet {c n t : ℕ} (h : Released inp c n)
    (has : FallingPulse (fun t => (inp t).asSynced) fun t => (inp t).asP1)
    (hds : FallingPulse (fun t => (inp t).dsSynced) fun t => (inp t).dsP1) (hct : c ≤ t)
    (htn : t < c + n) : Quiet (inp t) := by
  obtain ⟨hrst, hasS, hdsS⟩ := h t hct htn
  exact ⟨hrst, hasS, hdsS, has.none_at_high hasS, hds.none_at_high hdsS⟩

/-- Every cycle of the release after the first one. -/
theorem settles_run {c n : ℕ} (hq : ∀ t, c ≤ t → t < c + n → Quiet (inp t))
    (h : ¬ Parks g (run (step g) s inp c)) {k : ℕ} (hk : k < n) :
    Cleared (run (step g) s inp (c + k + 1)) ∧
      Settles (4 - k) (run (step g) s inp (c + k + 1)).fsm := by
  induction k with
  | zero =>
    have hq0 := hq c (Nat.le_refl c) (by omega)
    exact ⟨cleared_step hq0, settles_first hq0 h⟩
  | succ k ih =>
    obtain ⟨hc, hset⟩ := ih (by omega)
    have hqk := hq (c + k + 1) (by omega) (by omega)
    refine ⟨cleared_step hqk, ?_⟩
    rcases Nat.lt_or_ge k 4 with hlt | hge
    · rw [show 4 - k = 4 - (k + 1) + 1 by omega] at hset
      exact settles_step hqk hc hset
    · rw [show 4 - k = 0 by omega] at hset
      cases hset with
      | rest hrest => exact .rest (atRest_step hqk hc hrest.state)

theorem parked_run {c n : ℕ} (hq : ∀ t, c ≤ t → t < c + n → Quiet (inp t))
    (h : Parks g (run (step g) s inp c)) {k : ℕ} (hk : k < n) :
    Cleared (run (step g) s inp (c + k + 1)) ∧
      (run (step g) s inp (c + k + 1)).fsm.state = .decodeAddr := by
  induction k with
  | zero =>
    have hq0 := hq c (Nat.le_refl c) (by omega)
    exact ⟨cleared_step hq0, parks_step hq0 h⟩
  | succ k ih =>
    obtain ⟨hc, hs⟩ := ih (by omega)
    have hqk := hq (c + k + 1) (by omega) (by omega)
    exact ⟨cleared_step hqk, parked_step hqk hc hs⟩

/-- An access past the end of the range, and then an idle bus. -/
def outOfRange (t : ℕ) : In where
  rstN := true
  asSynced := decide (4 ≤ t)
  asP1 := decide (t = 0)
  dsSynced := decide (t = 0 ∨ 4 ≤ t)
  dsP1 := decide (t = 1)
  writeN := true
  vmeLwordN := false
  vmeDsN := 0#2
  vmeGa := 0x3e#6
  vmeAm := 0x2f#6
  vmeAddr := 0x78012#31
  vmeData := 0#32
  masterI := ⟨false, false, 0#32⟩

/-- After it the core stays in `DECODE_ADDR`. -/
theorem out_of_range_parks :
    ¬ ∀ (g : Generics) (inp : ℕ → In),
      FallingPulse (fun t => (inp t).asSynced) (fun t => (inp t).asP1) →
      FallingPulse (fun t => (inp t).dsSynced) (fun t => (inp t).dsP1) →
      ∀ c, Released inp c 5 → AtRest (run (step g) powerUp inp (c + 5)).fsm := by
  intro hall
  have hrest := hall svecGenerics outOfRange
    (fallingPulse_of_bound (fun t (ht : 1 ≤ t) => by simp [outOfRange]; omega) (by decide))
    (fallingPulse_of_bound (fun t (ht : 2 ≤ t) => by simp [outOfRange]; omega) (by decide))
    4 (fun t ht _ => ⟨rfl, decide_eq_true ht, decide_eq_true (Or.inr ht)⟩)
  exact absurd hrest.state (by decide +kernel)

/-- From any state and after any history, with AS and DS inactive for five cycles or more,
the core is at rest exactly if the first of these cycles did not find it on the way into the
wait of `DECODE_ADDR`. -/
theorem at_rest_iff (g : Generics) (s : Regs) (inp : ℕ → In)
    (has : FallingPulse (fun t => (inp t).asSynced) fun t => (inp t).asP1)
    (hds : FallingPulse (fun t => (inp t).dsSynced) fun t => (inp t).dsP1) (c n : ℕ) (hn : 5 ≤ n)
    (hrel : Released inp c n) :
    AtRest (run (step g) s inp (c + n)).fsm ↔ ¬ Parks g (run (step g) s inp c) := by
  have hq : ∀ t, c ≤ t → t < c + n → Quiet (inp t) := fun t hct htn => hrel.quiet has hds hct htn
  obtain ⟨k, rfl⟩ : ∃ k, n = k + 1 := ⟨n - 1, by omega⟩
  constructor
  · intro hrest hpark
    have hs := (parked_run hq hpark (Nat.lt_succ_self k)).2
    rw [show c + k + 1 = c + (k + 1) from rfl, hrest.state] at hs
    exact absurd hs (by decide)
  · intro hpark
    have hset := (settles_run hq hpark (Nat.lt_succ_self k)).2
    rw [show 4 - k = 0 by omega] at hset
    cases hset with
    | rest hrest => exact hrest

/-- The access to the card comes back to rest. -/
theorem at_rest_iff_access :
    AtRest (run (step svecGenerics) powerUp Ownership.ownAccess (9 + 5)).fsm ↔
      ¬ Parks svecGenerics (run (step svecGenerics) powerUp Ownership.ownAccess 9) :=
  at_rest_iff svecGenerics powerUp Ownership.ownAccess
    (fallingPulse_of_bound (fun t (ht : 1 ≤ t) => by simp [Ownership.ownAccess]; omega) (by decide))
    (fallingPulse_of_bound (fun t (ht : 2 ≤ t) => by simp [Ownership.ownAccess]; omega) (by decide))
    9 5 (Nat.le_refl 5) (fun t ht _ => ⟨rfl, decide_eq_true ht, decide_eq_true (Or.inr ht)⟩)

end Run

end Svec.Vme.Rest
