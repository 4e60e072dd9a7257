/-
  Vme/Dtack.lean --- the acknowledge handshake of the VME slave.

  DTACK answers the acknowledge of the strobe that the VME cycle in progress has
  issued.  Abandoned cycles leave acknowledges in flight; they die out before
  `WAIT_ACK` is entered again, as two strobes are at least four cycles apart and an
  acknowledge takes three at most.  This needs the strobe to be a pulse, which a
  reset in its cycle spoils: it takes the state machine to `IDLE` and leaves
  `master_o.stb` set.
-/
import Svec.Vme.Ownership

set_option autoImplicit false

namespace Svec.Vme.Dtack

open Svec.Data Svec.Sync Svec.Hdl Svec.Hdl.MiniVme
open Svec.Vme.Ownership (FallingPulse svecGenerics core fallingPulse_of_bound)

/-- The registers after a cycle of reset, at the end of a run from power-up. -/
def ResetState (g : Generics) (s : Regs) : Prop :=
  ∃ hist n, (hist n).rstN = false ∧ s = core g hist (n + 1)

/-- The core at every cycle from `s` on. -/
def vme (g : Generics) (s : Regs) (inp : ℕ → In) : ℕ → Regs := run (step g) s inp

/-- The slave accepts a strobe. -/
def Strobe (r : Regs) : Prop := r.fsm.masterO.cyc = true ∧ r.fsm.masterO.stb = true

/-- DTACK is driven low. -/
def Low (r : Regs) : Prop := r.fsm.vmeDtackOe = true ∧ r.fsm.vmeDtackN = false

instance (r : Regs) : Decidable (Strobe r) := inferInstanceAs (Decidable (_ ∧ _))

instance (r : Regs) : Decidable (Low r) := inferInstanceAs (Decidable (_ ∧ _))

/-- The cycles after a reset with a slave that never stalls, acknowledges the strobe of cycle `t`
after `lat t` cycles, one to three, and acknowledges nothing else. -/
structure Served (g : Generics) (s : Regs) (inp : ℕ → In) (lat : ℕ → ℕ) : Prop where
  noReset : ∀ t, (inp t).rstN = true
  noStall : ∀ t, (inp t).masterI.stall = false
  latency : ∀ t, 1 ≤ lat t ∧ lat t ≤ 3
  once : ∀ a, (inp a).masterI.ack = true ↔ ∃ t, Strobe (vme g s inp t) ∧ t + lat t = a

/-- The VME cycle accepted in cycle `v` was strobed in cycle `v + 2` and has waited since, up to
cycle `a`. -/
structure Waited (g : Generics) (s : Regs) (inp : ℕ → In) (v a : ℕ) : Prop where
  decode : (vme g s inp v).fsm.state = .decodeAddr
  exec : (vme g s inp (v + 1)).fsm.state = .execCycle
  strobe : Strobe (vme g s inp (v + 2))
  began : v + 2 ≤ a
  wait : ∀ k, v + 2 ≤ k → k ≤ a → (vme g s inp k).fsm.state = .waitAck

/-- The wait ended in cycle `a` with the acknowledge of that strobe and of no other, and `DTACK`
has lasted since, up to the cycle before `t`. -/
structure Acknowledged (g : Generics) (s : Regs) (inp : ℕ → In) (lat : ℕ → ℕ) (v a t : ℕ) : Prop
    extends Waited g s inp v a where
  ack : (inp a).masterI.ack = true
  own : ∀ u, Strobe (vme g s inp u) → u + lat u = a → u = v + 2
  dtack : a + 1 < t ∧ ∀ k, a < k → k < t → (vme g s inp k).fsm.state = .dtack

section Run

variable {g : Generics} {s : Regs} {inp : ℕ → In} {lat : ℕ → ℕ}

theorem vme_succ (t : ℕ) : vme g s inp (t + 1) = step g (vme g s inp t) (inp t) := rfl

theorem Served.moves (h : Served g s inp lat) (t : ℕ) :
    Moves g (vme g s inp t) (inp t) (vme g s inp t).fsm.state (vme g s inp (t + 1)).fsm.state :=
  moves_of_step (h.noReset t)

/-! ## What a reset leaves -/

/-- What the reset state has in common with every other one. -/
theorem ResetState.cleared (h : ResetState g s) : s.fsm.state = .idle ∧ s.fsm.vmeDtackOe = false := by
  obtain ⟨hist, n, hr, rfl⟩ := h
  rw [Ownership.core_succ]
  simp [step, pFsm, hr]

/-! ## Strobes -/

/-- `EXEC_CYCLE` strobes in the next cycle, the first one of the wait. -/
theorem Served.strobe_of_exec (h : Served g s inp lat) {t : ℕ}
    (hs : (vme g s inp t).fsm.state = .execCycle) :
    (vme g s inp (t + 1)).fsm.state = .waitAck ∧ Strobe (vme g s inp (t + 1)) := by
  have hr := h.noReset t
  rw [Strobe, vme_succ]
  simp [step, pFsm, hr, hs]

/-- From a clear strobe on every strobe is one of `EXEC_CYCLE`. -/
theorem Served.exec_of_stb (h : Served g s inp lat) (hstb : s.fsm.masterO.stb = false) {t : ℕ}
    (ht : (vme g s inp t).fsm.masterO.stb = true) :
    ∃ u, t = u + 1 ∧ (vme g s inp u).fsm.state = .execCycle := by
  induction t with
  | zero => exact absurd (hstb.symm.trans ht) Bool.false_ne_true
  | succ t ih =>
    rcases stb_step (r := vme g s inp t) (h.noStall t) ht with ⟨-, hs⟩ | ⟨hold, hr | hs⟩
    · exact ⟨t, rfl, hs⟩
    · exact absurd (hr.symm.trans (h.noReset t)) Bool.false_ne_true
    · obtain ⟨u, rfl, hu⟩ := ih hold
      exact absurd (h.strobe_of_exec hu).1 hs

/-- Two strobes are four cycles apart. -/
theorem Served.exec_apart (h : Served g s inp lat) {u v : ℕ}
    (hu : (vme g s inp u).fsm.state = .execCycle) (hv : (vme g s inp v).fsm.state = .execCycle)
    (huv : u < v) : u + 4 ≤ v := by
  have hwait := (h.strobe_of_exec hu).1
  by_contra hnear
  obtain rfl | rfl | rfl : v = u + 1 ∨ v = u + 2 ∨ v = u + 3 := by omega
  · rw [hwait] at hv
    cases hv
  · have hdec := (execCycle_entry (r := vme g s inp (u + 1)) hv).2.1
    rw [hwait] at hdec
    cases hdec
  · have hdec := (execCycle_entry (r := vme g s inp (u + 2)) hv).2.1
    obtain ⟨-, ⟨hs, -, -⟩ | hs⟩ := decodeAddr_entry (r := vme g s inp (u + 1)) hdec
    · rw [hwait] at hs
      cases hs
    · rw [hwait] at hs
      cases hs

/-! ## The wait for the acknowledge -/

/-- The direction of the VME cycle is sampled when it is accepted and kept until the next. -/
theorem isWrite_hold {t : ℕ} (hs : (vme g s inp t).fsm.state ≠ .decodeAddr) :
    (vme g s inp (t + 1)).fsm.isWrite = (vme g s inp t).fsm.isWrite := by
  rw [vme_succ]
  show (pFsm g (vme g s inp t) (inp t)).isWrite = _
  unfold pFsm
  cases hst : (vme g s inp t).fsm.state
  case decodeAddr => exact absurd hst hs
  all_goals
    simp only [hst]
    (repeat' split) <;> rfl

theorem Served.isWrite_of_accept (h : Served g s inp lat) {v : ℕ}
    (hdec : (vme g s inp v).fsm.state = .decodeAddr)
    (hexec : (vme g s inp (v + 1)).fsm.state = .execCycle) :
    (vme g s inp (v + 1)).fsm.isWrite = !(inp v).writeN := by
  obtain ⟨-, -, ha, hm, hin⟩ := execCycle_entry (r := vme g s inp v) hexec
  rw [vme_succ]
  simp [step, pFsm, h.noReset v, hdec, ha, hm, hin]

/-- `WAIT_ACK` waits for the strobe of the VME cycle that was accepted last. -/
theorem Served.waited (h : Served g s inp lat) (hidle : s.fsm.state = .idle) {t : ℕ}
    (ht : (vme g s inp t).fsm.state = .waitAck) :
    ∃ v, Waited g s inp v t ∧ (vme g s inp t).fsm.isWrite = !(inp v).writeN := by
  induction t with
  | zero =>
    rw [show vme g s inp 0 = s from rfl, hidle] at ht
    cases ht
  | succ t ih =>
    obtain ⟨-, hexec | hwait⟩ := waitAck_entry (r := vme g s inp t) ht
    · obtain ⟨v, rfl⟩ : ∃ v, t = v + 1 := by
        cases t with
        | zero =>
          rw [show vme g s inp 0 = s from rfl, hidle] at hexec
          cases hexec
        | succ v => exact ⟨v, rfl⟩
      have hdec := (execCycle_entry (r := vme g s inp v) hexec).2.1
      refine ⟨v, ⟨hdec, hexec, (h.strobe_of_exec hexec).2, Nat.le_refl _, fun k hk hk' => ?_⟩, ?_⟩
      · obtain rfl : k = v + 2 := by omega
        exact ht
      · rw [isWrite_hold (by simp [hexec]), h.isWrite_of_accept hdec hexec]
    · obtain ⟨v, hw, hdir⟩ := ih hwait
      refine ⟨v, ⟨hw.decode, hw.exec, hw.strobe, by have := hw.began; omega, fun k hk hk' => ?_⟩, ?_⟩
      · rcases Nat.le_succ_iff.mp hk' with hle | rfl
        · exact hw.wait k hk hle
        · exact ht
      · rw [isWrite_hold (by simp [hwait]), hdir]

/-- An acknowledge that `WAIT_ACK` sees is the one of its own strobe: those of earlier strobes
have come before. -/
theorem Served.own_of_waited (h : Served g s inp lat) (hstb : s.fsm.masterO.stb = false) {v a : ℕ}
    (hw : Waited g s inp v a) {u : ℕ} (hu : Strobe (vme g s inp u)) (hua : u + lat u = a) : u = v + 2 := by
  obtain ⟨e, rfl, he⟩ := h.exec_of_stb hstb hu.2
  obtain ⟨hlo, hhi⟩ := h.latency (e + 1)
  rcases Nat.lt_trichotomy e (v + 1) with hlt | rfl | hgt
  · have hapart := h.exec_apart he hw.exec hlt
    have hbegan := hw.began
    omega
  · rfl
  · have hs := hw.wait e hgt (by omega)
    rw [he] at hs
    cases hs

/-! ## DTACK -/

/-- The state `DTACK` answers the acknowledge that ended the wait. -/
theorem Served.acknowledged (h : Served g s inp lat) (hidle : s.fsm.state = .idle)
    (hstb : s.fsm.masterO.stb = false) {t : ℕ} (ht : (vme g s inp t).fsm.state = .dtack) :
    ∃ v a, Acknowledged g s inp lat v a (t + 1) ∧ (vme g s inp t).fsm.isWrite = !(inp v).writeN ∧
      (vme g s inp t).fsm.readbackData = (inp a).masterI.dat := by
  induction t with
  | zero =>
    rw [show vme g s inp 0 = s from rfl, hidle] at ht
    cases ht
  | succ t ih =>
    obtain ⟨-, hwait | hdtack⟩ := dtack_entry (r := vme g s inp t) ht
    · obtain ⟨v, hw, hdir⟩ := h.waited hidle hwait
      have hack : (inp t).masterI.ack = true := by
        have hmove := h.moves t
        rw [hwait, ht] at hmove
        cases hmove with
        | answer ha => exact ha
      refine ⟨v, t, ⟨hw, hack, fun u hu hut => h.own_of_waited hstb hw hu hut, by omega,
        fun k hk hk' => ?_⟩, ?_, ?_⟩
      · obtain rfl : k = t + 1 := by omega
        exact ht
      · rw [isWrite_hold (by simp [hwait]), hdir]
      · rw [vme_succ]
        simp [step, pFsm, h.noReset t, hwait, hack]
    · obtain ⟨v, a, hack, hdir, hdat⟩ := ih hdtack
      refine ⟨v, a, ⟨hack.toWaited, hack.ack, hack.own, by have := hack.dtack.1; omega,
        fun k hk hk' => ?_⟩, ?_, ?_⟩
      · rcases Nat.lt_succ_iff_lt_or_eq.mp hk' with hlt | rfl
        · exact hack.dtack.2 k hk hlt
        · exact ht
      · rw [isWrite_hold (by simp [hdtack]), hdir]
      · rw [vme_succ, ← hdat]
        simp [step, pFsm, h.noReset t, hdtack]

/-- DTACK is driven low in the cycle after the state `DTACK` only. -/
theorem Served.dtack_of_low (h : Served g s inp lat) (hoe : s.fsm.vmeDtackOe = false) {t : ℕ}
    (ht : (vme g s inp t).fsm.vmeDtackOe = true) :
    ∃ u, t = u + 1 ∧ (vme g s inp u).fsm.state = .dtack := by
  induction t with
  | zero => exact absurd (hoe.symm.trans ht) Bool.false_ne_true
  | succ t ih =>
    obtain ⟨-, hs | ⟨hold, hidle, hdtack⟩⟩ := dtackOe_step (r := vme g s inp t) ht
    · exact ⟨t, rfl, hs⟩
    · obtain ⟨u, rfl, hu⟩ := ih hold
      have hmove := h.moves u
      rw [hu] at hmove
      generalize (vme g s inp (u + 1)).fsm.state = st at hmove hidle hdtack
      cases hmove with
      | release _ _ => exact absurd rfl hidle
      | hold _ => exact absurd rfl hdtack

/-- What the state `DTACK` drives in the next cycle. -/
theorem Served.drives (h : Served g s inp lat) {t : ℕ} (hs : (vme g s inp t).fsm.state = .dtack) :
    Low (vme g s inp (t + 1)) ∧
      (vme g s inp (t + 1)).fsm.vmeDataDir = !(vme g s inp t).fsm.isWrite ∧
      (vme g s inp (t + 1)).fsm.vmeDataO = (vme g s inp t).fsm.readbackData := by
  rw [Low, vme_succ]
  simp [step, pFsm, h.noReset t, hs]

/-- In one stay in `DTACK` nothing that it drives changes. -/
theorem Served.drives_same (h : Served g s inp lat) {t : ℕ} (hs : (vme g s inp t).fsm.state = .dtack) :
    (vme g s inp (t + 1)).fsm.isWrite = (vme g s inp t).fsm.isWrite ∧
      (vme g s inp (t + 1)).fsm.readbackData = (vme g s inp t).fsm.readbackData := by
  refine ⟨isWrite_hold (by simp [hs]), ?_⟩
  rw [vme_succ]
  simp [step, pFsm, h.noReset t, hs]

end Run

/-! ## A reset in the cycle of the strobe -/

/-- A read access to the card, with the resets and the acknowledges as given. -/
def access (rstN ack : ℕ → Bool) (t : ℕ) : In where
  rstN := rstN t
  asSynced := decide (12 ≤ t)
  asP1 := decide (t = 0)
  dsSynced := decide (t = 0 ∨ 12 ≤ t)
  dsP1 := decide (t = 1)
  writeN := true
  vmeLwordN := false
  vmeDsN := 0#2
  vmeGa := 0x3e#6
  vmeAm := 0x2f#6
  vmeAddr := 0x78002#31
  vmeData := 0#32
  masterI := ⟨ack t, false, 0x1234#32⟩

theorem access_as (rstN ack : ℕ → Bool) :
    FallingPulse (fun t => (access rstN ack t).asSynced) fun t => (access rstN ack t).asP1 := by
  intro t ht
  obtain rfl : t = 0 := of_decide_eq_true ht
  exact ⟨rfl, fun u hu => absurd hu (Nat.succ_ne_zero u).symm⟩

theorem access_ds (rstN ack : ℕ → Bool) :
    FallingPulse (fun t => (access rstN ack t).dsSynced) fun t => (access rstN ack t).dsP1 := by
  intro t ht
  obtain rfl : t = 1 := of_decide_eq_true ht
  refine ⟨rfl, fun u hu => ?_⟩
  obtain rfl : u = 0 := by omega
  rfl

/-- Once the access is over and the core does not move any more, it strobes no more. -/
theorem strobes_before {g : Generics} {s : Regs} {inp : ℕ → In} {m : ℕ}
    (hin : ∀ t, inp (m + t) = inp m) (hfix : step g (vme g s inp m) (inp m) = vme g s inp m)
    (hno : ¬ Strobe (vme g s inp m)) {t : ℕ} (ht : Strobe (vme g s inp t)) : t < m := by
  by_contra hge
  obtain ⟨n, rfl⟩ := Nat.exists_eq_add_of_le (Nat.le_of_not_lt hge)
  have hover : vme g s inp (m + n) = vme g s inp m :=
    (run_add _ _ _ m n).trans (run_fixed (fun k => (congrArg _ (hin k)).trans hfix) n)
  exact hno (hover ▸ ht)

/-- The access with the strobes in the cycles of `l` acknowledged `n` cycles later. -/
def servedAccess (n : ℕ) (l : List ℕ) : ℕ → In :=
  access (fun _ => true) fun a => decide (a ∈ l.map (· + n))

theorem servedAccess_served {g : Generics} {s : Regs} {n : ℕ} {l : List ℕ} (hn : 1 ≤ n ∧ n ≤ 3)
    (hl : ∀ t ∈ l, t < 12)
    (hfix : step g (vme g s (servedAccess n l) 15) (servedAccess n l 15) = vme g s (servedAccess n l) 15)
    (hstrobe : ∀ t, t < 16 → (Strobe (vme g s (servedAccess n l) t) ↔ t ∈ l)) :
    Served g s (servedAccess n l) fun _ => n where
  noReset _ := rfl
  noStall _ := rfl
  latency _ := hn
  once a := by
    have hlate : ∀ t, 15 ≤ t → t ∉ l.map (· + n) := by
      intro t ht hmem
      obtain ⟨u, hu, rfl⟩ := List.mem_map.mp hmem
      have := hl u hu
      omega
    have hconst : ∀ t, servedAccess n l (15 + t) = servedAccess n l 15 := fun t => by
      simp [servedAccess, access, hlate (15 + t) (by omega), hlate 15 (Nat.le_refl 15),
        show 12 ≤ 15 + t by omega, show 15 + t ≠ 1 by omega]
    have hiff : ∀ t, Strobe (vme g s (servedAccess n l) t) ↔ t ∈ l := by
      intro t
      rcases Nat.lt_or_ge t 16 with hlt | hge
      · exact hstrobe t hlt
      · refine ⟨fun ht => ?_, fun ht => absurd (hl t ht) (by omega)⟩
        have hno : ¬ Strobe (vme g s (servedAccess n l) 15) := fun h =>
          absurd (hl 15 ((hstrobe 15 (by decide)).mp h)) (by decide)
        exact absurd (strobes_before hconst hfix hno ht) (by omega)
    simp only [hiff]
    exact decide_eq_true_iff.trans List.mem_map

/-- The state after a reset in the cycle of the strobe. -/
def cutShort : Regs := core svecGenerics (access (fun t => decide (t ≠ 5)) fun _ => false) 6

/-- The next access takes the acknowledge of a strobe that is not its own. -/
theorem stale_ack_answers :
    ¬ ∀ (g : Generics) (s : Regs) (inp : ℕ → In) (lat : ℕ → ℕ), ResetState g s →
      FallingPulse (fun t => (inp t).asSynced) (fun t => (inp t).asP1) →
      FallingPulse (fun t => (inp t).dsSynced) (fun t => (inp t).dsP1) →
      Served g s inp lat → ∀ t, Low (vme g s inp t) → ∃ v a, Acknowledged g s inp lat v a t := by
  intro hall
  have hserved : Served svecGenerics cutShort (servedAccess 3 [0, 1, 2, 3, 4, 5]) fun _ => 3 :=
    servedAccess_served (by decide) (by decide) (by decide +kernel) (by decide +kernel)
  obtain ⟨v, a, hack⟩ := hall svecGenerics cutShort _ _ ⟨_, 5, rfl, rfl⟩ (access_as _ _)
    (access_ds _ _) hserved 7 (by decide +kernel)
  obtain ⟨t, hstrobe, hta⟩ := (hserved.once a).mp hack.ack
  have hlt := hack.dtack.1
  have hown := hack.own t hstrobe hta
  have hbegan := hack.began
  obtain rfl : v = 0 := by omega
  exact absurd hack.decode (by decide +kernel)

/-- From a reset that did not fall on the cycle of a strobe, with any bus: DTACK is driven low
only for the acknowledge of the strobe of the VME cycle in progress, until AS and DS are both
inactive, and with the direction of that cycle and the acknowledged word on the bus. -/
theorem dtack_handshake (g : Generics) (s : Regs) (inp : ℕ → In) (lat : ℕ → ℕ) (hreset : ResetState g s)
    (hstb : s.fsm.masterO.stb = false) (h : Served g s inp lat) :
    (∀ t, Low (vme g s inp t) → ∃ v a, Acknowledged g s inp lat v a t ∧
      (vme g s inp t).fsm.vmeDataDir = (inp v).writeN ∧
      ((inp v).writeN = true → (vme g s inp t).fsm.vmeDataO = (inp a).masterI.dat)) ∧
    (∀ t, Low (vme g s inp t) → Low (vme g s inp (t + 1)) ∨
      ∃ u, t = u + 1 ∧ (inp u).asSynced = true ∧ (inp u).dsSynced = true) ∧
    (∀ t, Low (vme g s inp t) → Low (vme g s inp (t + 1)) →
      (vme g s inp (t + 1)).fsm.vmeDataDir = (vme g s inp t).fsm.vmeDataDir ∧
      (vme g s inp (t + 1)).fsm.vmeDataO = (vme g s inp t).fsm.vmeDataO) := by
  obtain ⟨hidle, hoe⟩ := hreset.cleared
  refine ⟨fun t hlow => ?_, fun t hlow => ?_, fun t hlow hlow' => ?_⟩
  · obtain ⟨u, rfl, hu⟩ := h.dtack_of_low hoe hlow.1
    obtain ⟨v, a, hack, hdir, hdat⟩ := h.acknowledged hidle hstb hu
    obtain ⟨-, hdir', hdat'⟩ := h.drives hu
    exact ⟨v, a, hack, by rw [hdir', hdir, Bool.not_not], fun _ => hdat'.trans hdat⟩
  · obtain ⟨u, rfl, hu⟩ := h.dtack_of_low hoe hlow.1
    have hmove := h.moves u
    rw [hu] at hmove
    generalize hst : (vme g s inp (u + 1)).fsm.state = st at hmove
    cases hmove with
    | release hd ha => exact .inr ⟨u, rfl, ha, hd⟩
    | hold _ => exact .inl (h.drives hst).1
  · obtain ⟨u, rfl, hu⟩ := h.dtack_of_low hoe hlow.1
    obtain ⟨w, hw, hu'⟩ := h.dtack_of_low hoe hlow'.1
    obtain rfl : w = u + 1 := by omega
    obtain ⟨-, hdir, hdat⟩ := h.drives hu
    obtain ⟨-, hdir', hdat'⟩ := h.drives hu'
    obtain ⟨hsame, hsame'⟩ := h.drives_same hu
    exact ⟨by rw [hdir, hdir', hsame], by rw [hdat, hdat', hsame']⟩

/-- The state after a reset on an idle bus. -/
def freshReset : Regs := core svecGenerics (access (fun _ => false) fun _ => false) 1

/-- A read access is answered with the acknowledge of its strobe. -/
theorem dtack_handshake_access :
    ∃ v a, Acknowledged svecGenerics freshReset (servedAccess 1 [5]) (fun _ => 1) v a 8 ∧
      (vme svecGenerics freshReset (servedAccess 1 [5]) 8).fsm.vmeDataDir = true ∧
      (true = true → (vme svecGenerics freshReset (servedAccess 1 [5]) 8).fsm.vmeDataO = 0x1234#32) :=
  (dtack_handshake svecGenerics freshReset (servedAccess 1 [5]) (fun _ => 1) ⟨_, 0, rfl, rfl⟩ rfl
    (servedAccess_served (by decide) (by decide) (by decide +kernel) (by decide +kernel))).1 8
    (by decide +kernel)

end Svec.Vme.Dtack
