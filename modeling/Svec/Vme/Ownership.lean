/-
  Vme/Ownership.lean --- whose VME cycle the core executes.

  The address latch, the data latch, the comparators and the state machine of the
  core each see the bus at another delay.  A monitor that looks at the inputs only
  says what the address and the data phase of the current VME cycle are; the
  theorem says when every strobe and every DTACK of the core can be traced to a
  moment at which the monitor had recorded an access to the card itself.

  The state machine does not always leave `DECODE_ADDR`: it waits there when the
  address matches but is out of range, or is no longer valid.  What it does with
  the next address edge is then decided by the comparators' old flags, so the
  runs considered are those in which it never accepts after such a wait.
-/
import Svec.Hdl.MiniVme

set_option autoImplicit false

namespace Svec.Vme.Ownership

open Svec.Data Svec.Sync Svec.Hdl Svec.Hdl.MiniVme

/-! ## What the bus says -/

/-- The VME cycle in progress as the inputs show it: its address phase and its data phase,
as far as they have been seen since the last reset.  A cycle ends when AS is released. -/
structure Monitor where
  prevAs : Bool
  addr : Option AddrPhase
  data : Option DataPhase
  deriving DecidableEq, Repr

def Monitor.step (m : Monitor) (i : In) : Monitor :=
  if !i.rstN then ⟨i.asSynced, none, none⟩
  else
    { prevAs := i.asSynced
      addr :=
        if i.asP1 then some ⟨i.vmeAddr, i.vmeAm, i.vmeGa, i.vmeLwordN⟩
        else if i.asSynced then none else m.addr
      data :=
        if i.dsP1 then some ⟨i.vmeData, i.vmeDsN⟩
        else if i.asSynced && !m.prevAs then none else m.data }

/-- The monitor at every cycle, from an idle bus. -/
def monitor (inp : ℕ → In) : ℕ → Monitor := run Monitor.step ⟨true, none, none⟩ inp

/-- An access to the card: CR/CSR address modifier, the card's slot with good parity,
A31-A24 zero, D32, and an address in the user CSR range. -/
def OwnCycle (g : Generics) (a : AddrPhase) (d : DataPhase) : Prop :=
  a.am = 0x2f#6 ∧ gaParityOk a.ga = true ∧ a.slot = ~~~(a.ga.extractLsb' 0 5) ∧ a.high = 0#8 ∧
    a.lword = false ∧ d.ds = 0#2 ∧ a.addr.getLsbD 0 = false ∧
    g.gUserCsrStart ≤ a.offset ∧ a.offset ≤ g.gUserCsrEnd

instance (g : Generics) (a : AddrPhase) (d : DataPhase) : Decidable (OwnCycle g a d) :=
  inferInstanceAs (Decidable (_ ∧ _))

/-- A synchroniser's pulse comes with the falling edge of its level, and only there. -/
def FallingPulse (synced p1 : ℕ → Bool) : Prop :=
  ∀ t, p1 t = true → synced t = false ∧ ∀ u, t = u + 1 → synced u = true

theorem FallingPulse.none_at_high {synced p1 : ℕ → Bool} (h : FallingPulse synced p1) {t : ℕ}
    (hs : synced t = true) : p1 t = false := by
  by_contra hp
  have hlow : synced t = false := (h t (by simpa using hp)).1
  exact absurd (hlow.symm.trans hs) Bool.false_ne_true

theorem FallingPulse.none_after_low {synced p1 : ℕ → Bool} (h : FallingPulse synced p1) {t : ℕ}
    (hs : synced t = false) : p1 (t + 1) = false := by
  by_contra hp
  have hprev : synced t = true := (h (t + 1) (by simpa using hp)).2 t rfl
  exact absurd (hs.symm.trans hprev) Bool.false_ne_true

/-! ## What the core does -/

/-- The registers after power-up. -/
def powerUp : Regs := default

/-- The core at every cycle from power-up. -/
def core (g : Generics) (inp : ℕ → In) : ℕ → Regs := run (step g) powerUp inp

/-- In cycle `v` the state machine accepts the VME cycle. -/
def Accepts (g : Generics) (inp : ℕ → In) (v : ℕ) : Prop :=
  (core g inp v).fsm.state = .decodeAddr ∧ (core g inp (v + 1)).fsm.state = .execCycle

/-- In cycle `t` the state machine gives up a transaction: DS is released before the
acknowledge. -/
def Abandons (g : Generics) (inp : ℕ → In) (t : ℕ) : Prop :=
  (core g inp t).fsm.state = .waitAck ∧ (inp t).masterI.ack = false ∧ (inp t).dsSynced = true

/-- DTACK is driven low. -/
def Regs.dtackAsserted (r : Regs) : Prop := r.fsm.vmeDtackOe = true ∧ r.fsm.vmeDtackN = false

/-- The runs in which the core is not led astray. -/
structure Orderly (g : Generics) (inp : ℕ → In) : Prop where
  /-- A reset does not fall on the cycle of the strobe. -/
  reset : ∀ t, (inp t).rstN = false → (core g inp t).fsm.masterO.stb = false
  /-- The core accepts in its first cycle in `DECODE_ADDR` or not at all. -/
  fresh : ∀ t, (core g inp t).fsm.state = .decodeAddr → ¬ Accepts g inp (t + 1)
  /-- DS has fallen in the VME cycle that is accepted. -/
  dataSeen : ∀ t, Accepts g inp t → (monitor inp t).data ≠ none
  /-- DS does not fall again in the cycle of acceptance. -/
  dataStable : ∀ t, Accepts g inp t → (inp t).dsP1 = false
  /-- After a transaction was given up DS does not fall again under the same AS. -/
  noRestrobe : ∀ t u, Abandons g inp t → t < u →
    (∀ w, t ≤ w → w < u → (inp w).asSynced = false) → (inp u).dsP1 = false

section Run

variable {g : Generics} {inp : ℕ → In}

theorem core_succ (t : ℕ) : core g inp (t + 1) = step g (core g inp t) (inp t) := rfl

theorem moves {t : ℕ} (hr : (inp t).rstN = true) :
    Moves g (core g inp t) (inp t) (core g inp t).fsm.state (core g inp (t + 1)).fsm.state :=
  moves_of_step hr

theorem idle_of_reset {t : ℕ} (hr : (inp t).rstN = false) :
    (core g inp (t + 1)).fsm.state = .idle ∧ (core g inp (t + 1)).addr.valid = false := by
  rw [core_succ]
  simp [hr]
  simp [step, pFsm, hr]

/-! ## The latches and the monitor -/

/-- The address latch holds the monitor's address phase while it is valid, and the data
latch holds the monitor's data phase if there is one. -/
def Coupled (r : Regs) (m : Monitor) : Prop :=
  (r.addr.valid = true → m.addr = some r.addr.latched) ∧ ∀ d, m.data = some d → r.data.latched = d

theorem coupled_step {r : Regs} {m : Monitor} {i : In} (h : Coupled r m) :
    Coupled (step g r i) (m.step i) := by
  obtain ⟨haddr, hdata⟩ := h
  unfold Coupled step Monitor.step
  cases hr : i.rstN with
  | false => simp [pLatchAddr, hr]
  | true =>
    simp only [pLatchAddr, pLatchData, hr, Bool.not_true, Bool.false_eq_true, if_false]
    constructor
    · cases hp : i.asP1 with
      | true => intro _; rfl
      | false =>
        cases hs : i.asSynced with
        | true => simp
        | false => simpa using haddr
    · intro d hd
      cases hp : i.dsP1 with
      | true => simpa [hp] using hd
      | false =>
        simp only [hp, Bool.false_eq_true, if_false] at hd ⊢
        have hold : m.data = some d := by
          split at hd
          · exact absurd hd (by simp)
          · exact hd
        split
        · exact hdata d hold
        · exact hdata d hold

theorem coupled_run (t : ℕ) : Coupled (core g inp t) (monitor inp t) :=
  related_run (R := fun _ r m => Coupled r m)
    ⟨fun h => absurd h (show ¬ powerUp.addr.valid = true by decide), fun d h => absurd h (by simp)⟩
    (fun _ _ h => coupled_step h) (Nat.le_refl t)

/-- A latch that the released level clears is not valid when the pulse comes. -/
theorem no_pulse_of_valid {synced p1 v : ℕ → Bool} (hpulse : FallingPulse synced p1)
    (h0 : v 0 = false)
    (hclear : ∀ u, p1 u = false → synced u = true → v (u + 1) = false) {t : ℕ}
    (hv : v t = true) : p1 t = false := by
  by_contra hp
  obtain ⟨-, hprev⟩ := hpulse t (by simpa using hp)
  cases t with
  | zero => simp [h0] at hv
  | succ u =>
    have hlevel : synced u = true := hprev u rfl
    simp [hclear u (hpulse.none_at_high hlevel) hlevel] at hv

theorem no_asP1_of_valid (has : FallingPulse (fun t => (inp t).asSynced) fun t => (inp t).asP1)
    {t : ℕ} (hv : (core g inp t).addr.valid = true) : (inp t).asP1 = false :=
  no_pulse_of_valid (v := fun t => (core g inp t).addr.valid) has rfl (fun u hp hs => by
    rw [core_succ]
    simp [hp, hs]) hv

theorem no_dsP1_of_valid (hds : FallingPulse (fun t => (inp t).dsSynced) fun t => (inp t).dsP1)
    {t : ℕ} (hv : (core g inp t).data.valid = true) : (inp t).dsP1 = false :=
  no_pulse_of_valid (v := fun t => (core g inp t).data.valid) hds rfl (fun u hp hs => by
    rw [core_succ]
    simp [hp, hs]) hv

theorem addr_latched_hold {t : ℕ} (hp : (inp t).asP1 = false) :
    (core g inp (t + 1)).addr.latched = (core g inp t).addr.latched := by
  rw [core_succ]
  unfold step pLatchAddr
  simp only [hp, Bool.false_eq_true, if_false]
  (repeat' split) <;> rfl

theorem data_latched_hold {t : ℕ} (hp : (inp t).dsP1 = false) :
    (core g inp (t + 1)).data.latched = (core g inp t).data.latched := by
  rw [core_succ]
  unfold step pLatchData
  simp only [hp, Bool.false_eq_true, if_false]
  (repeat' split) <;> rfl

/-! ## Acceptance -/

theorem accepts_of_execCycle {t : ℕ} (h : (core g inp (t + 1)).fsm.state = .execCycle) :
    Accepts g inp t := ⟨(execCycle_entry h).2.1, h⟩

/-- What is accepted is the card's own VME cycle, and its phases are still latched when the
strobe is made of them. -/
theorem own_of_accepts (has : FallingPulse (fun t => (inp t).asSynced) fun t => (inp t).asP1)
    (hds : FallingPulse (fun t => (inp t).dsSynced) fun t => (inp t).dsP1)
    (hord : Orderly g inp) {v : ℕ} (hv : Accepts g inp v) :
    (monitor inp v).addr = some (core g inp (v + 1)).addr.latched ∧
      (monitor inp v).data = some (core g inp (v + 1)).data.latched ∧
      OwnCycle g (core g inp (v + 1)).addr.latched (core g inp (v + 1)).data.latched := by
  obtain ⟨hdec, hexec⟩ := hv
  obtain ⟨-, -, hvalid, hmatch, hrange⟩ := execCycle_entry (r := core g inp v) hexec
  -- `DECODE_ADDR` was entered in the cycle before, from `IDLE`, with both latches valid.
  obtain ⟨u, rfl⟩ : ∃ u, v = u + 1 := by
    cases v with
    | zero => exact absurd hdec (show ¬ powerUp.fsm.state = .decodeAddr by decide)
    | succ u => exact ⟨u, rfl⟩
  have hnot : (core g inp u).fsm.state ≠ .decodeAddr := fun h => hord.fresh u h ⟨hdec, hexec⟩
  obtain ⟨hr, ⟨-, hav, hdv⟩ | hpark⟩ := decodeAddr_entry (r := core g inp u) hdec
  swap
  · exact absurd hpark hnot
  have haddr : (core g inp (u + 1)).addr.latched = (core g inp u).addr.latched :=
    addr_latched_hold (no_asP1_of_valid has hav)
  have hdata : (core g inp (u + 1)).data.latched = (core g inp u).data.latched :=
    data_latched_hold (no_dsP1_of_valid hds hdv)
  have haddr' : (core g inp (u + 1 + 1)).addr.latched = (core g inp (u + 1)).addr.latched :=
    addr_latched_hold (no_asP1_of_valid has hvalid)
  have hdata' : (core g inp (u + 1 + 1)).data.latched = (core g inp (u + 1)).data.latched :=
    data_latched_hold (hord.dataStable _ ⟨hdec, hexec⟩)
  obtain ⟨hma, hmd⟩ : Coupled (core g inp (u + 1)) (monitor inp (u + 1)) := coupled_run (u + 1)
  obtain ⟨d, hd⟩ := Option.ne_none_iff_exists'.mp (hord.dataSeen _ ⟨hdec, hexec⟩)
  refine ⟨by rw [haddr']; exact hma hvalid, by rw [hdata', hmd d hd]; exact hd, ?_⟩
  have hcmp : (core g inp (u + 1)).cmp =
      ⟨(core g inp u).addr.latched.amMatch, (core g inp u).addr.latched.addrMatch,
        dtypeMatch (core g inp u).addr.latched (core g inp u).data.latched⟩ := by
    show pDecode (core g inp u) (inp u) = _
    simp [pDecode, hr]
  unfold Regs.matched at hmatch
  rw [hcmp] at hmatch
  rw [haddr', hdata', haddr, hdata]
  rw [haddr] at hrange
  simp only [AddrPhase.addrMatch, AddrPhase.amMatch, dtypeMatch, Generics.inRange, cAmCsCsr,
    Bool.and_eq_true, decide_eq_true_iff, Bool.not_eq_true'] at hmatch hrange
  obtain ⟨⟨⟨⟨hpar, hslot⟩, hhigh⟩, ham⟩, ⟨hds0, hlw⟩, ha1⟩ := hmatch
  exact ⟨of_decide_eq_true ham, hpar, hslot, hhigh, hlw, hds0, ha1, hrange⟩

/-! ## Strobes -/

theorem waitAck_of_stb (hstall : ∀ t, (inp t).masterI.stall = false) (hord : Orderly g inp) (t : ℕ)
    (h : (core g inp t).fsm.masterO.stb = true) :
    (core g inp t).fsm.state = .waitAck ∧ ∃ u, t = u + 1 ∧ (core g inp u).fsm.state = .execCycle := by
  induction t with
  | zero => exact absurd h (show ¬ powerUp.fsm.masterO.stb = true by decide)
  | succ u ih =>
    rcases stb_step (r := core g inp u) (hstall u) h with ⟨hr, hexec⟩ | ⟨hold, hwhy⟩
    · refine ⟨?_, u, rfl, hexec⟩
      have hmove := moves (g := g) hr
      rw [hexec] at hmove
      generalize (core g inp (u + 1)).fsm.state = st at hmove ⊢
      cases hmove with
      | exec => rfl
    · rcases hwhy with hr | hs
      · rw [hord.reset u hr] at hold
        exact absurd hold (by decide)
      · exact absurd (ih hold).1 hs

/-- Every strobe comes two cycles after an acceptance and carries its address and data. -/
theorem accepts_of_stb (hstall : ∀ t, (inp t).masterI.stall = false) (hord : Orderly g inp) {t : ℕ}
    (h : (core g inp t).fsm.masterO.stb = true) :
    ∃ v, t = v + 2 ∧ Accepts g inp v ∧
      (core g inp t).fsm.masterO.adr =
        0#11 ++ ((core g inp (v + 1)).addr.latched.offset - g.gUserCsrStart) ∧
      (core g inp t).fsm.masterO.dat = (core g inp (v + 1)).data.latched.data := by
  obtain ⟨hwait, w, rfl, hexec⟩ := waitAck_of_stb hstall hord t h
  cases w with
  | zero => exact absurd hexec (show ¬ powerUp.fsm.state = .execCycle by decide)
  | succ v =>
    have hr : (inp (v + 1)).rstN = true := rstN_of_state hwait (by decide)
    have hfsm : (core g inp (v + 1 + 1)).fsm = pFsm g (core g inp (v + 1)) (inp (v + 1)) := rfl
    refine ⟨v, rfl, accepts_of_execCycle hexec, ?_, ?_⟩ <;> rw [hfsm] <;> simp [pFsm, hr, hexec]

/-! ## DTACK -/

/-- While it is busy the state machine works on the last VME cycle it accepted. -/
theorem accepts_of_busy {t : ℕ}
    (h : (core g inp t).fsm.state = .execCycle ∨ (core g inp t).fsm.state = .waitAck ∨
      (core g inp t).fsm.state = .dtack) :
    ∃ v, v < t ∧ Accepts g inp v ∧ ∀ w, v < w → w ≤ t → (core g inp w).fsm.state ≠ .decodeAddr := by
  induction t with
  | zero => rcases h with h | h | h <;> exact absurd h (show powerUp.fsm.state ≠ _ by decide)
  | succ t ih =>
    -- Either the acceptance was in this step, or the cycle before was busy already.
    have hprev : Accepts g inp t ∨ ((core g inp t).fsm.state = .execCycle ∨
        (core g inp t).fsm.state = .waitAck ∨ (core g inp t).fsm.state = .dtack) := by
      rcases h with hexec | hwait | hdtack
      · exact Or.inl (accepts_of_execCycle hexec)
      · rcases (waitAck_entry hwait).2 with hs | hs
        · exact Or.inr (Or.inl hs)
        · exact Or.inr (Or.inr (Or.inl hs))
      · rcases (dtack_entry hdtack).2 with hs | hs
        · exact Or.inr (Or.inr (Or.inl hs))
        · exact Or.inr (Or.inr (Or.inr hs))
    have hnot : (core g inp (t + 1)).fsm.state ≠ .decodeAddr := by
      rcases h with hs | hs | hs <;> rw [hs] <;> decide
    rcases hprev with hacc | hbusy
    · refine ⟨t, Nat.lt_succ_self t, hacc, fun w hw hwt => ?_⟩
      obtain rfl : w = t + 1 := by omega
      exact hnot
    · obtain ⟨v, hvt, hacc, hsince⟩ := ih hbusy
      refine ⟨v, by omega, hacc, fun w hw hwt => ?_⟩
      rcases Nat.le_succ_iff.mp hwt with hle | rfl
      · exact hsince w hw hle
      · exact hnot

/-- DTACK is driven low in the cycle after the state `DTACK` only. -/
theorem dtack_of_asserted (t : ℕ) (h : (core g inp t).fsm.vmeDtackOe = true) :
    ∃ u, t = u + 1 ∧ (core g inp u).fsm.state = .dtack := by
  induction t with
  | zero => exact absurd h (show ¬ powerUp.fsm.vmeDtackOe = true by decide)
  | succ t ih =>
    obtain ⟨hr, hs | ⟨hold, hidle, hdtack⟩⟩ := dtackOe_step (r := core g inp t) h
    · exact ⟨t, rfl, hs⟩
    · -- From `DTACK` the state machine goes nowhere but to `IDLE`.
      obtain ⟨u, rfl, hu⟩ := ih hold
      exfalso
      cases hru : (inp u).rstN with
      | false => exact hidle (idle_of_reset hru).1
      | true =>
        have hmove := moves (g := g) hru
        rw [hu] at hmove
        generalize (core g inp (u + 1)).fsm.state = st at hmove hidle hdtack
        cases hmove with
        | release _ _ => exact hidle rfl
        | hold _ => exact hdtack rfl

/-! ## One transaction for one VME cycle -/

/-- How the acceptance in cycle `v` is used up in cycle `t`: the state machine is busy with it,
or has no valid address, or has given up and has no valid data. -/
inductive Spent (g : Generics) (inp : ℕ → In) (v t : ℕ) : Prop
  | execCycle (hs : (core g inp t).fsm.state = .execCycle)
  | waitAck (hs : (core g inp t).fsm.state = .waitAck)
  | dtack (hs : (core g inp t).fsm.state = .dtack)
  | noAddr (hs : (core g inp t).fsm.state = .idle) (hinvalid : (core g inp t).addr.valid = false)
  | gaveUp (hs : (core g inp t).fsm.state = .idle) (hinvalid : (core g inp t).data.valid = false)
      (a : ℕ) (hva : v < a) (hat : a < t) (habandons : Abandons g inp a)

/-- No cycle is accepted twice: while AS is low nothing leads to `DECODE_ADDR`. -/
theorem Spent.step (hds : FallingPulse (fun t => (inp t).dsSynced) fun t => (inp t).dsP1)
    (hord : Orderly g inp) {v t : ℕ} (hvt : v < t) (hnoedge : (inp t).asP1 = false)
    (hlow : ∀ w, v ≤ w → w ≤ t → (inp w).asSynced = false) (h : Spent g inp v t) :
    Spent g inp v (t + 1) := by
  cases hr : (inp t).rstN with
  | false =>
    obtain ⟨hidle, hinvalid⟩ := idle_of_reset (g := g) hr
    exact .noAddr hidle hinvalid
  | true =>
    have hmove := moves (g := g) hr
    cases h with
    | execCycle hs =>
      rw [hs] at hmove
      generalize hst : (core g inp (t + 1)).fsm.state = st at hmove
      cases hmove with
      | exec => exact .waitAck hst
    | waitAck hs =>
      rw [hs] at hmove
      generalize hst : (core g inp (t + 1)).fsm.state = st at hmove
      cases hmove with
      | answer _ => exact .dtack hst
      | abandon hack hd =>
        refine .gaveUp hst ?_ t hvt (Nat.lt_succ_self t) ⟨hs, hack, hd⟩
        rw [core_succ]
        simp [hds.none_at_high hd, hd]
      | await _ _ => exact .waitAck hst
    | dtack hs =>
      rw [hs] at hmove
      generalize hst : (core g inp (t + 1)).fsm.state = st at hmove
      cases hmove with
      | release _ hreleased =>
        exact absurd ((hlow t (Nat.le_of_lt hvt) (Nat.le_refl t)).symm.trans hreleased) Bool.false_ne_true
      | hold _ => exact .dtack hst
    | noAddr hs hinvalid =>
      rw [hs] at hmove
      generalize hst : (core g inp (t + 1)).fsm.state = st at hmove
      cases hmove with
      | decode hvalid _ => exact absurd (hinvalid.symm.trans hvalid) Bool.false_ne_true
      | wait _ =>
        refine .noAddr hst ?_
        rw [core_succ]
        simp [hnoedge, hinvalid]
    | gaveUp hs hinvalid a hva hat habandons =>
      rw [hs] at hmove
      generalize hst : (core g inp (t + 1)).fsm.state = st at hmove
      cases hmove with
      | decode _ hvalid => exact absurd (hinvalid.symm.trans hvalid) Bool.false_ne_true
      | wait _ =>
        have hp : (inp t).dsP1 = false := hord.noRestrobe a t habandons hat fun w hw hwt =>
          hlow w (Nat.le_of_lt (Nat.lt_of_lt_of_le hva hw)) (Nat.le_of_lt hwt)
        refine .gaveUp hst ?_ a hva (Nat.lt_succ_of_lt hat) habandons
        rw [core_succ]
        simp [hp, hinvalid]

/-- After an acceptance this is so for as long as AS is not released. -/
theorem spent_until_release (has : FallingPulse (fun t => (inp t).asSynced) fun t => (inp t).asP1)
    (hds : FallingPulse (fun t => (inp t).dsSynced) fun t => (inp t).dsP1)
    (hord : Orderly g inp) {v : ℕ} (hv : Accepts g inp v) {t : ℕ} (hvt : v < t)
    (hlow : ∀ w, v ≤ w → w < t → (inp w).asSynced = false) : Spent g inp v t := by
  induction t, Nat.succ_le_of_lt hvt using Nat.le_induction with
  | base => exact .execCycle hv.2
  | succ t hle ih =>
    have hprev : Spent g inp v t := ih hle fun w hw hwt => hlow w hw (Nat.lt_succ_of_lt hwt)
    obtain ⟨u, rfl⟩ : ∃ u, t = u + 1 := ⟨t - 1, by omega⟩
    have hnoedge : (inp (u + 1)).asP1 = false := has.none_after_low (hlow u (by omega) (by omega))
    exact hprev.step hds hord hle hnoedge fun w hw hwt => hlow w hw (Nat.lt_succ_of_le hwt)

/-- Two acceptances belong to two VME cycles: AS is released in between. -/
theorem released_between (has : FallingPulse (fun t => (inp t).asSynced) fun t => (inp t).asP1)
    (hds : FallingPulse (fun t => (inp t).dsSynced) fun t => (inp t).dsP1)
    (hord : Orderly g inp) {v v' : ℕ} (hv : Accepts g inp v) (hv' : Accepts g inp v')
    (hlt : v < v') : ∃ w, v ≤ w ∧ w < v' ∧ (inp w).asSynced = true := by
  by_contra hno
  have hlow : ∀ w, v ≤ w → w < v' → (inp w).asSynced = false := by
    intro w h h'
    by_contra hw
    exact hno ⟨w, h, h', by simpa using hw⟩
  have hbusy : (core g inp v').fsm.state ≠ .decodeAddr := by
    cases spent_until_release has hds hord hv hlt hlow with
    | execCycle hs | waitAck hs | dtack hs | noAddr hs _ | gaveUp hs =>
      rw [hs]
      decide
  exact hbusy hv'.1

end Run

/-! ## The runs that go wrong -/

/-- Where the pulses end, the falling edges can be checked one by one. -/
theorem fallingPulse_of_bound {synced p1 : ℕ → Bool} {n : ℕ} (hbound : ∀ t, n ≤ t → p1 t = false)
    (h : ∀ t, t < n → p1 t = true → synced t = false ∧ (t = 0 ∨ synced (t - 1) = true)) :
    FallingPulse synced p1 := by
  intro t ht
  rcases Nat.lt_or_ge t n with hlt | hge
  · obtain ⟨hlow, h0 | hprev⟩ := h t hlt ht
    · exact ⟨hlow, fun u hu => by omega⟩
    · exact ⟨hlow, fun u hu => by rwa [hu] at hprev⟩
  · rw [hbound t hge] at ht
    exact absurd ht (by decide)

/-- The range of the bootloader's registers in the CR/CSR space. -/
def svecGenerics : Generics := ⟨0x70000#21, 0x70020#21⟩

/-- An access of the card's CR/CSR space past the end of the range, and after it a cycle of
another master with another address modifier to another slot. -/
def outOfRangeThenForeign (t : ℕ) : In where
  rstN := true
  asSynced := decide (t = 4 ∨ t = 5)
  asP1 := decide (t = 0 ∨ t = 6)
  dsSynced := decide (t = 0 ∨ 4 ≤ t ∧ t ≤ 7)
  dsP1 := decide (t = 1 ∨ t = 8)
  writeN := false
  vmeLwordN := false
  vmeDsN := 0#2
  vmeGa := 0x3e#6
  vmeAm := if t < 5 then 0x2f#6 else 0x09#6
  vmeAddr := if t < 5 then 0x78012#31 else 0x38000#31
  vmeData := 0x40#32
  masterI := ⟨decide (t = 10), false, 0#32⟩

/-- The other master's cycle is executed: a strobe without any VME cycle of the card. -/
theorem executes_foreign_cycle :
    ¬ ∀ (g : Generics) (inp : ℕ → In),
      FallingPulse (fun t => (inp t).asSynced) (fun t => (inp t).asP1) →
      FallingPulse (fun t => (inp t).dsSynced) (fun t => (inp t).dsP1) →
      (∀ t, (inp t).masterI.stall = false) →
      ∀ t, (core g inp t).fsm.masterO.stb = true →
        ∃ v, v < t ∧ ∃ a ∈ (monitor inp v).addr, ∃ d ∈ (monitor inp v).data, OwnCycle g a d := by
  intro hall
  have hpulseAs : FallingPulse (fun t => (outOfRangeThenForeign t).asSynced)
      (fun t => (outOfRangeThenForeign t).asP1) :=
    fallingPulse_of_bound (fun t (ht : 7 ≤ t) => by simp [outOfRangeThenForeign]; omega) (by decide)
  have hpulseDs : FallingPulse (fun t => (outOfRangeThenForeign t).dsSynced)
      (fun t => (outOfRangeThenForeign t).dsP1) :=
    fallingPulse_of_bound (fun t (ht : 9 ≤ t) => by simp [outOfRangeThenForeign]; omega) (by decide)
  have hown := hall svecGenerics outOfRangeThenForeign hpulseAs hpulseDs (fun _ => rfl) 9 (by decide)
  exact absurd hown (by decide +kernel)

/-- In every orderly run, whatever else happens on the bus: each strobe belongs to a VME
cycle of the card and carries its address and data, each DTACK belongs to one, and no VME
cycle is executed twice. -/
theorem executes_own_cycles_once (g : Generics) (inp : ℕ → In)
    (has : FallingPulse (fun t => (inp t).asSynced) fun t => (inp t).asP1)
    (hds : FallingPulse (fun t => (inp t).dsSynced) fun t => (inp t).dsP1)
    (hstall : ∀ t, (inp t).masterI.stall = false) (hord : Orderly g inp) :
    (∀ t, (core g inp t).fsm.masterO.stb = true →
      ∃ v, t = v + 2 ∧ ∃ a ∈ (monitor inp v).addr, ∃ d ∈ (monitor inp v).data, OwnCycle g a d ∧
        (core g inp t).fsm.masterO.adr.toNat + g.gUserCsrStart.toNat = a.offset.toNat ∧
        (core g inp t).fsm.masterO.dat = d.data) ∧
    (∀ t, Regs.dtackAsserted (core g inp t) →
      ∃ v, v < t ∧ Accepts g inp v ∧
        (∀ w, v < w → w < t → (core g inp w).fsm.state ≠ .decodeAddr) ∧
        ∃ a ∈ (monitor inp v).addr, ∃ d ∈ (monitor inp v).data, OwnCycle g a d) ∧
    (∀ t t', t < t' → (core g inp t).fsm.masterO.stb = true →
      (core g inp t').fsm.masterO.stb = true →
      ∃ w, t ≤ w + 2 ∧ w + 2 < t' ∧ (inp w).asSynced = true) := by
  refine ⟨fun t hstb => ?_, fun t hdtack => ?_, fun t t' hlt hstb hstb' => ?_⟩
  · obtain ⟨v, rfl, hacc, hadr, hdat⟩ := accepts_of_stb hstall hord hstb
    obtain ⟨haddr, hdata, hown⟩ := own_of_accepts has hds hord hacc
    refine ⟨v, rfl, _, haddr, _, hdata, hown, ?_, hdat⟩
    obtain ⟨-, -, -, -, -, -, -, hlo, -⟩ := hown
    rw [hadr, BitVec.toNat_append, BitVec.toNat_sub_of_le hlo]
    have hle := BitVec.le_def.mp hlo
    simp
    omega
  · obtain ⟨u, rfl, hu⟩ := dtack_of_asserted t hdtack.1
    obtain ⟨v, hvu, hacc, hsince⟩ := accepts_of_busy (Or.inr (Or.inr hu))
    obtain ⟨haddr, hdata, hown⟩ := own_of_accepts has hds hord hacc
    exact ⟨v, by omega, hacc, fun w hw hwt => hsince w hw (by omega), _, haddr, _, hdata, hown⟩
  · obtain ⟨v, rfl, hacc, -, -⟩ := accepts_of_stb hstall hord hstb
    obtain ⟨v', rfl, hacc', -, -⟩ := accepts_of_stb hstall hord hstb'
    obtain ⟨w, hvw, hwv, hrel⟩ := released_between has hds hord hacc hacc' (by omega)
    exact ⟨w, by omega, by omega, hrel⟩

/-- One read access to the card, and then an idle bus. -/
def ownAccess (t : ℕ) : In where
  rstN := true
  asSynced := decide (9 ≤ t)
  asP1 := decide (t = 0)
  dsSynced := decide (t = 0 ∨ 9 ≤ t)
  dsP1 := decide (t = 1)
  writeN := true
  vmeLwordN := false
  vmeDsN := 0#2
  vmeGa := 0x3e#6
  vmeAm := 0x2f#6
  vmeAddr := 0x78002#31
  vmeData := 0#32
  masterI := ⟨decide (t = 6), false, 0x1234#32⟩

/-- Once the access is over the core does not move any more. -/
theorem ownAccess_over (n : ℕ) :
    core svecGenerics ownAccess (12 + n) = core svecGenerics ownAccess 12 := by
  refine (run_add _ _ _ 12 n).trans (run_fixed (fun t => ?_) n)
  have hin : ownAccess (12 + t) = ownAccess 12 := by
    simp [ownAccess, show 9 ≤ 12 + t by omega, show 12 + t ≠ 1 by omega,
      show 12 + t ≠ 6 by omega]
  rw [hin]
  decide +kernel

theorem ownAccess_orderly : Orderly svecGenerics ownAccess := by
  have hidle : ∀ t, 12 ≤ t → (core svecGenerics ownAccess t).fsm.state = .idle := by
    intro t ht
    rw [show t = 12 + (t - 12) by omega, ownAccess_over]
    decide +kernel
  have hdecode : ∀ t, (core svecGenerics ownAccess t).fsm.state = .decodeAddr → t = 3 := by
    intro t ht
    rcases Nat.lt_or_ge t 12 with hlt | hge
    · exact (by decide +kernel : ∀ t, t < 12 →
        (core svecGenerics ownAccess t).fsm.state = .decodeAddr → t = 3) t hlt ht
    · rw [hidle t hge] at ht
      exact absurd ht (by decide)
  have hwait : ∀ t, Abandons svecGenerics ownAccess t → False := by
    rintro t ⟨hs, hack, hds⟩
    rcases Nat.lt_or_ge t 12 with hlt | hge
    · exact (by decide +kernel : ∀ t, t < 12 → (core svecGenerics ownAccess t).fsm.state = .waitAck →
        (ownAccess t).masterI.ack = false → (ownAccess t).dsSynced = true → False) t hlt hs hack hds
    · rw [hidle t hge] at hs
      exact absurd hs (by decide)
  constructor
  · intro t ht
    exact absurd ht (by simp [ownAccess])
  · intro t ht hacc
    have h1 := hdecode t ht
    have h2 := hdecode _ hacc.1
    omega
  · intro t hacc
    obtain rfl := hdecode t hacc.1
    decide +kernel
  · intro t hacc
    obtain rfl := hdecode t hacc.1
    rfl
  · intro t u hab
    exact (hwait t hab).elim

/-- The access is executed with the address of its own address phase. -/
theorem executes_own_cycles_once_access :
    ∃ v, 5 = v + 2 ∧ ∃ a ∈ (monitor ownAccess v).addr, ∃ d ∈ (monitor ownAccess v).data,
      OwnCycle svecGenerics a d ∧
      (core svecGenerics ownAccess 5).fsm.masterO.adr.toNat + 0x70000 = a.offset.toNat ∧
      (core svecGenerics ownAccess 5).fsm.masterO.dat = d.data :=
  (executes_own_cycles_once svecGenerics ownAccess
    (fallingPulse_of_bound (fun t (ht : 1 ≤ t) => by simp [ownAccess]; omega) (by decide))
    (fallingPulse_of_bound (fun t (ht : 2 ≤ t) => by simp [ownAccess]; omega) (by decide))
    (fun _ => rfl) ownAccess_orderly).1 5 (by decide +kernel)

end Svec.Vme.Ownership
