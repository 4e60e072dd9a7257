/-
  Loader/ClockShape.lean --- the shape of CCLK and DIN.

  Most edges of CCLK wait for a tick of the divider, and two ticks are CLKDIV + 1
  cycles apart.  Three do not wait: `READ_FIFO` and `IDLE` take CCLK low at once,
  after the last bit of an entry, after `WAIT_DONE` and after the last start-up
  pulse.  With every state goes what is known of the levels that lead up to it,
  so that each edge finds the level before it long enough or one of these three.
-/
import Svec.Loader.Bounded

set_option autoImplicit false

namespace Svec.Loader.ClockShape

open Svec.Data Svec.Sync Svec.Hdl Svec.Loader
open Svec.Hdl.XilinxLoader (Regs In State pMainFsm cMinProgDelay cDoneTimeout cStartupCycles)
open Svec.Loader.Bounded (tickGap Steady steady_step steady_run)

/-- The first `n` cycles from an accepted START on, with the divider `d` and without a reset. -/
structure Session (d : BitVec 7) (s : Regs) (inp : ℕ → In) (n : ℕ) : Prop where
  idle : s.state = .idle
  start : (inp 0).csrStart = true
  running : ∀ t, t < n → (inp t).Running
  divider : ∀ t, t < n → (inp t).csrClkDiv = d

/-- `xlx_cclk_o` in cycle `t`. -/
def cclk (s : Regs) (inp : ℕ → In) (t : ℕ) : Bool := (loader s inp t).xlxCclk

/-- `xlx_din_o` in cycle `t`. -/
def din (s : Regs) (inp : ℕ → In) (t : ℕ) : Bool := (loader s inp t).xlxDin

/-- CCLK is at the level `b` in the cycles after `u` up to `v`, and no longer. -/
structure Phase (s : Regs) (inp : ℕ → In) (b : Bool) (u v : ℕ) : Prop where
  lt : u < v
  edge : u = 0 ∨ cclk s inp u = !b
  level : ∀ k, u < k → k ≤ v → cclk s inp k = b
  ends : cclk s inp (v + 1) = !b

/-- CCLK and DIN respect the divider in the first `n` cycles. -/
structure Respects (d : BitVec 7) (s : Regs) (inp : ℕ → In) (n : ℕ) : Prop where
  low : ∀ u v, v < n → Phase s inp false u v → d.toNat + 1 ≤ v - u
  high : ∀ u v, v < n → Phase s inp true u v → d.toNat + 1 ≤ v - u
  din : ∀ u v, v < n → cclk s inp u = false → Phase s inp true u v →
    d.toNat ≤ u ∧ ∀ k, u ≤ k + d.toNat → k ≤ v → din s inp k = din s inp v

/-! ## The edges that do not wait -/

/-- The edge of the last bit of an entry. -/
structure EntryEdge (s : Regs) (inp : ℕ → In) (last : Bool) (u : ℕ) : Prop where
  state : (loader s inp u).state = .clockEdge
  tick : (loader s inp u).tick = true
  bit : (loader s inp u).bitCounter = 0#5
  last : (loader s inp u).dLast = last

/-- The high phase that began with the edge of cycle `u` is ended by `IDLE` in cycle `v`, unless
there is a START. -/
inductive Closing (d : BitVec 7) (s : Regs) (inp : ℕ → In) (u : ℕ) : ℕ → Prop where
  /-- DONE comes before the divider's tick. -/
  | done (k : ℕ) (hedge : EntryEdge s inp true u) (hpos : 0 < k) (hk : k < d.toNat)
      (hdone : (inp (u + k)).doneSynced = true)
      (hfirst : ∀ m, 0 < m → m < k → (inp (u + m)).doneSynced = false) : Closing d s inp u (u + k + 1)
  /-- The last start-up pulse. -/
  | startup (hd : 0 < d.toNat) (hs : (loader s inp u).state = .startupCclk1)
      (ht : (loader s inp u).tick = true) (hc : (loader s inp u).startupCount = cStartupCycles) :
      Closing d s inp u (u + 1)

/-- The high phase that began with the edge of cycle `u` ends with cycle `v`, too early. -/
inductive Cut (d : BitVec 7) (s : Regs) (inp : ℕ → In) (u : ℕ) : ℕ → Prop where
  | entry (hd : 0 < d.toNat) (hedge : EntryEdge s inp false u) : Cut d s inp u (u + 1)
  | idle {v : ℕ} (h : Closing d s inp u v) (hstart : (inp v).csrStart = false) : Cut d s inp u v

section Run

variable {d : BitVec 7} {s : Regs} {inp : ℕ → In} {n t : ℕ}

/-! ## The divider -/

/-- The inputs of the first `n` cycles, and after them an idle bus. -/
def prolonged (d : BitVec 7) (inp : ℕ → In) (n t : ℕ) : In :=
  if t < n then inp t else { (default : In) with rstN := true, csrClkDiv := d }

theorem Session.prolonged (h : Session d s inp n) (t : ℕ) :
    (prolonged d inp n t).Running ∧ (prolonged d inp n t).csrClkDiv = d := by
  unfold ClockShape.prolonged
  split
  · rename_i hlt
    exact ⟨h.running t hlt, h.divider t hlt⟩
  · exact ⟨⟨rfl, rfl⟩, rfl⟩

theorem loader_prolonged (ht : t ≤ n) : loader s (prolonged d inp n) t = loader s inp t :=
  run_congr fun _ hk => if_pos (Nat.lt_of_lt_of_le hk ht)

theorem Session.steady (h : Session d s inp n) (ht : t ≤ n) (hlate : 128 ≤ t) :
    Steady d (loader s inp t) := by
  rw [← loader_prolonged (d := d) ht]
  exact steady_run (fun t => (h.prolonged t).1.1) (fun t => (h.prolonged t).2) hlate

/-- PROG_B is held low first. -/
theorem Session.extending (h : Session d s inp n) (ht : t ≤ n) (hpos : 0 < t) (hearly : t ≤ 1001) :
    (loader s inp t).state = .extendProg := by
  rw [← loader_prolonged (d := d) ht]
  have hstart : (ClockShape.prolonged d inp n 0).csrStart = true := by
    rw [ClockShape.prolonged, if_pos (Nat.lt_of_lt_of_le hpos ht)]
    exact h.start
  obtain ⟨hs, hc⟩ := XilinxLoader.extendProg_of_start (h.prolonged 0).1 hstart h.idle
  have hdwell := XilinxLoader.extendProg_dwell (r := loader s (ClockShape.prolonged d inp n)) (n := 1)
    (loader_succ s _) (fun t _ => (h.prolonged t).1) hs hc (j := t - 1) (by omega)
  rw [Nat.add_sub_cancel' hpos] at hdwell
  exact hdwell.1

/-- Every other state finds the divider steady. -/
theorem Session.steady_of_state (h : Session d s inp n) (ht : t ≤ n) (hpos : 0 < t)
    (hs : (loader s inp t).state ≠ .extendProg) : Steady d (loader s inp t) := by
  refine h.steady ht ?_
  by_contra hearly
  exact hs (h.extending ht hpos (by omega))

/-! ## Levels -/

/-- CCLK and DIN have been what they are for `j` cycles before cycle `t`. -/
def Level (s : Regs) (inp : ℕ → In) (j t : ℕ) : Prop :=
  j < t ∧ ∀ k, t ≤ k + j → k ≤ t → cclk s inp k = cclk s inp t ∧ din s inp k = din s inp t

theorem Level.first : Level s inp 0 (t + 1) :=
  ⟨Nat.succ_pos t, fun k hk hk' => by rw [show k = t + 1 by omega]; exact ⟨rfl, rfl⟩⟩

theorem Level.shorter {i j : ℕ} (h : Level s inp j t) (hij : i ≤ j) : Level s inp i t :=
  ⟨Nat.lt_of_le_of_lt hij h.1, fun k hk hk' => h.2 k (by omega) hk'⟩

theorem Level.next {j : ℕ} (h : Level s inp j t) (hc : cclk s inp (t + 1) = cclk s inp t)
    (hd : din s inp (t + 1) = din s inp t) : Level s inp (j + 1) (t + 1) := by
  refine ⟨Nat.succ_lt_succ h.1, fun k hk hk' => ?_⟩
  rcases Nat.le_succ_iff.mp hk' with hle | rfl
  · rw [hc, hd]
    exact h.2 k (by omega) hle
  · exact ⟨rfl, rfl⟩

/-- A phase is as long as its level. -/
theorem Phase.length {b : Bool} {u v j : ℕ} (h : Phase s inp b u v) (hl : Level s inp j v) :
    j + 1 ≤ v - u := by
  by_contra hshort
  have huv := h.lt
  have hj := hl.1
  rcases h.edge with h0 | hedge
  · omega
  · have hsame := (hl.2 u (by omega) (Nat.le_of_lt huv)).1
    rw [hedge, h.level v huv (Nat.le_refl v)] at hsame
    cases b <;> cases hsame

/-- A level that the divider times: it has lasted since the last tick. -/
def Timed (d : BitVec 7) (s : Regs) (inp : ℕ → In) (t : ℕ) : Prop :=
  ∃ j, Level s inp j t ∧ j + tickGap d (loader s inp t) = d.toNat

theorem Session.gap (h : Session d s inp n) (ht : t < n) (hst : Steady d (loader s inp t)) :
    tickGap d (loader s inp (t + 1)) =
      if (loader s inp t).tick then d.toNat else tickGap d (loader s inp t) - 1 :=
  (steady_step hst (h.running t ht).1 (h.divider t ht)).2

/-- What begins with a tick is timed. -/
theorem Session.timed (h : Session d s inp n) (ht : t < n) (hst : Steady d (loader s inp t))
    (htick : (loader s inp t).tick = true) : Timed d s inp (t + 1) :=
  ⟨0, Level.first, by rw [h.gap ht hst, htick, if_pos rfl, Nat.zero_add]⟩

theorem Timed.next (htimed : Timed d s inp t) (h : Session d s inp n) (ht : t < n)
    (hst : Steady d (loader s inp t)) (htick : (loader s inp t).tick = false)
    (hc : cclk s inp (t + 1) = cclk s inp t) (hd : din s inp (t + 1) = din s inp t) :
    Timed d s inp (t + 1) := by
  obtain ⟨j, hl, hj⟩ := htimed
  refine ⟨j + 1, hl.next hc hd, ?_⟩
  have hpos : 0 < tickGap d (loader s inp t) := by simp [tickGap, htick]
  rw [h.gap ht hst, htick, if_neg Bool.false_ne_true]
  omega

/-- At the tick it has lasted for `d` cycles. -/
theorem Timed.level (htimed : Timed d s inp t) (htick : (loader s inp t).tick = true) :
    Level s inp d.toNat t := by
  obtain ⟨j, hl, hj⟩ := htimed
  rw [tickGap, htick, if_pos rfl, Nat.add_zero] at hj
  exact hj ▸ hl

/-! ## What a step does to the pins -/

section Pins

variable (hrun : (inp t).Running)

include hrun

theorem pins_kept (hs : (loader s inp t).state = .extendProg ∨ (loader s inp t).state = .waitInit ∨
      (loader s inp t).state = .waitInit2 ∨ (loader s inp t).state = .waitDone) :
    cclk s inp (t + 1) = cclk s inp t ∧ din s inp (t + 1) = din s inp t := by
  rcases hs with hs | hs | hs | hs
  · by_cases hzero : (loader s inp t).timeoutCounter = 0#21 <;>
      simp [cclk, din, loader_succ, pMainFsm, hrun.guard, hs, hzero]
  · by_cases hzero : (loader s inp t).timeoutCounter = 0#21 <;> cases hb : (inp t).initBSynced <;>
      simp [cclk, din, loader_succ, pMainFsm, hrun.guard, hs, hzero, hb]
  · cases hb : (inp t).initBSynced <;> simp [cclk, din, loader_succ, pMainFsm, hrun.guard, hs, hb]
  · by_cases hzero : (loader s inp t).timeoutCounter = 0#21 <;> cases hd : (inp t).doneSynced <;>
      simp [cclk, din, loader_succ, pMainFsm, hrun.guard, hs, hzero, hd]

/-- Until the tick comes. -/
theorem pins_wait (hs : (loader s inp t).state = .outputBit ∨ (loader s inp t).state = .clockEdge)
    (htick : (loader s inp t).tick = false) :
    cclk s inp (t + 1) = cclk s inp t ∧ din s inp (t + 1) = din s inp t := by
  rcases hs with hs | hs <;> simp [cclk, din, loader_succ, pMainFsm, hrun.guard, hs, htick]

theorem cclk_waits (hs : (loader s inp t).state = .startupCclk0 ∨ (loader s inp t).state = .startupCclk1)
    (htick : (loader s inp t).tick = false) : cclk s inp (t + 1) = cclk s inp t := by
  rcases hs with hs | hs <;> simp [cclk, loader_succ, pMainFsm, hrun.guard, hs, htick]

/-- `IDLE` and `READ_FIFO` take CCLK low at once, two other states at the tick. -/
theorem cclk_low_of_idle (hs : (loader s inp t).state = .idle) (hstart : (inp t).csrStart = false) :
    cclk s inp (t + 1) = false := by
  simp [cclk, loader_succ, pMainFsm, hrun.guard, hs, hstart]

theorem cclk_low_of_readFifo (hs : (loader s inp t).state = .readFifo) : cclk s inp (t + 1) = false := by
  simp [cclk, loader_succ, pMainFsm, hrun.guard, hs]

theorem cclk_low_of_tick
    (hs : (loader s inp t).state = .outputBit ∨ (loader s inp t).state = .startupCclk0)
    (htick : (loader s inp t).tick = true) : cclk s inp (t + 1) = false := by
  rcases hs with hs | hs <;> simp [cclk, loader_succ, pMainFsm, hrun.guard, hs, htick]

end Pins

/-! ## What each state knows -/

/-- What is known in each state of the levels that lead up to it. -/
inductive Shape (d : BitVec 7) (s : Regs) (inp : ℕ → In) (t : ℕ) : Prop where
  | idle (hs : (loader s inp t).state = .idle)
      (hhigh : cclk s inp t = true → Level s inp d.toNat t ∨ ∃ u, Closing d s inp u t)
  | extendProg {j : ℕ} (hs : (loader s inp t).state = .extendProg) (hl : Level s inp j t)
      (hc : 127 ≤ j + (loader s inp t).timeoutCounter.toNat)
  | initB (hs : (loader s inp t).state = .waitInit ∨ (loader s inp t).state = .waitInit2)
      (hl : Level s inp d.toNat t)
  | readFifo (hs : (loader s inp t).state = .readFifo)
      (hhigh : cclk s inp t = true →
        Level s inp d.toNat t ∨ ∃ u, t = u + 1 ∧ EntryEdge s inp false u)
  | low (hs : (loader s inp t).state = .readFifo2 ∨ (loader s inp t).state = .gotDone)
      (hlow : cclk s inp t = false)
  | outputBit (hs : (loader s inp t).state = .outputBit)
      (hhigh : cclk s inp t = true → Timed d s inp t)
  | clockEdge (hs : (loader s inp t).state = .clockEdge) (hlow : cclk s inp t = false)
      (htimed : Timed d s inp t)
  | waitDone {u k : ℕ} (hs : (loader s inp t).state = .waitDone) (ht : t = u + k) (hpos : 0 < k)
      (hedge : EntryEdge s inp true u) (hl : Level s inp (k - 1) t)
      (hquiet : ∀ m, 0 < m → m < k → (inp (u + m)).doneSynced = false)
      (hc : (loader s inp t).timeoutCounter.toNat + k = cDoneTimeout.toNat + 1)
  | startupCclk0 (hs : (loader s inp t).state = .startupCclk0)
      (hhigh : cclk s inp t = true → din s inp t = false ∧ Timed d s inp t)
  | startupCclk1 (hs : (loader s inp t).state = .startupCclk1) (hlow : cclk s inp t = false)
      (hdin : din s inp t = false) (htimed : Timed d s inp t)

section Step

variable (h : Session d s inp n) (ht : t < n)

include h ht

theorem shape_idle (hs : (loader s inp t).state = .idle) : Shape d s inp (t + 1) := by
  have hrun := h.running t ht
  cases hstart : (inp t).csrStart with
  | true =>
    obtain ⟨hnext, hc⟩ := XilinxLoader.extendProg_of_start hrun hstart hs
    rw [← loader_succ] at hnext hc
    exact .extendProg hnext Level.first (by rw [hc]; decide)
  | false =>
    refine .idle (XilinxLoader.idle_step hrun hstart hs) fun hhigh => ?_
    exact absurd ((cclk_low_of_idle hrun hs hstart).symm.trans hhigh) Bool.false_ne_true

theorem shape_extendProg {j : ℕ} (hs : (loader s inp t).state = .extendProg) (hl : Level s inp j t)
    (hc : 127 ≤ j + (loader s inp t).timeoutCounter.toNat) : Shape d s inp (t + 1) := by
  have hrun := h.running t ht
  have hd := d.isLt
  have hkeep := pins_kept hrun (.inl hs)
  by_cases hzero : (loader s inp t).timeoutCounter = 0#21
  · have hlong : 127 ≤ j := by simpa [hzero] using hc
    refine .initB (.inl ?_) ((hl.next hkeep.1 hkeep.2).shorter (by omega))
    simp [loader_succ, pMainFsm, hrun.guard, hs, hzero]
  · refine .extendProg ?_ (hl.next hkeep.1 hkeep.2) ?_
    · simp [loader_succ, pMainFsm, hrun.guard, hs, hzero]
    · have hpos : (loader s inp t).timeoutCounter.toNat ≠ 0 := fun h => hzero (BitVec.eq_of_toNat_eq h)
      have hcount : (loader s inp (t + 1)).timeoutCounter = (loader s inp t).timeoutCounter - 1#21 := by
        simp [loader_succ, pMainFsm, hrun.guard, hs, hzero]
      rw [hcount, BitVec.toNat_sub_of_le (by simp [BitVec.le_def]; omega)]
      simp
      omega

theorem shape_initB
    (hs : (loader s inp t).state = .waitInit ∨ (loader s inp t).state = .waitInit2)
    (hl : Level s inp d.toNat t) : Shape d s inp (t + 1) := by
  have hrun := h.running t ht
  have hkeep := pins_kept hrun (.inr (hs.imp_right .inl))
  have hl' : Level s inp d.toNat (t + 1) := (hl.next hkeep.1 hkeep.2).shorter (Nat.le_succ _)
  rcases hs with hs | hs
  · cases hb : (inp t).initBSynced with
    | false =>
      refine .initB (.inr ?_) hl'
      by_cases hzero : (loader s inp t).timeoutCounter = 0#21 <;>
        simp [loader_succ, pMainFsm, hrun.guard, hs, hzero, hb]
    | true =>
      by_cases hzero : (loader s inp t).timeoutCounter = 0#21
      · exact .idle (by simp [loader_succ, pMainFsm, hrun.guard, hs, hzero, hb]) fun _ => .inl hl'
      · exact .initB (.inl (by simp [loader_succ, pMainFsm, hrun.guard, hs, hzero, hb])) hl'
  · cases hb : (inp t).initBSynced with
    | false => exact .initB (.inr (by simp [loader_succ, pMainFsm, hrun.guard, hs, hb])) hl'
    | true =>
      exact .readFifo (by simp [loader_succ, pMainFsm, hrun.guard, hs, hb]) fun _ => .inl hl'

theorem shape_readFifo (hs : (loader s inp t).state = .readFifo) : Shape d s inp (t + 1) := by
  have hrun := h.running t ht
  have hlow := cclk_low_of_readFifo hrun hs
  cases he : (inp t).csrEmpty with
  | false => exact .low (.inl (XilinxLoader.readFifo2_of_entry hrun hs he)) hlow
  | true =>
    refine .readFifo (by simp [loader_succ, pMainFsm, hrun.guard, hs, he]) fun hhigh => ?_
    exact absurd (hlow.symm.trans hhigh) Bool.false_ne_true

theorem shape_low (hs : (loader s inp t).state = .readFifo2 ∨ (loader s inp t).state = .gotDone)
    (hlow : cclk s inp t = false) : Shape d s inp (t + 1) := by
  have hrun := h.running t ht
  have hnot : ∀ {p : Prop}, cclk s inp (t + 1) = false → cclk s inp (t + 1) = true → p :=
    fun hl hh => absurd (hl.symm.trans hh) Bool.false_ne_true
  rcases hs with hs | hs
  · have hlow' : cclk s inp (t + 1) = false := by
      rw [← hlow]
      cases htick : (loader s inp t).tick <;> simp [cclk, loader_succ, pMainFsm, hrun.guard, hs, htick]
    cases htick : (loader s inp t).tick with
    | false => exact .low (.inl (XilinxLoader.readFifo2_wait hrun hs htick)) hlow'
    | true => exact .outputBit (XilinxLoader.outputBit_of_tick hrun hs htick) (hnot hlow')
  · have hlow' : cclk s inp (t + 1) = false := by
      rw [← hlow]
      cases he : (inp t).csrStartup <;> simp [cclk, loader_succ, pMainFsm, hrun.guard, hs, he]
    cases he : (inp t).csrStartup with
    | false => exact .low (.inr (by simp [loader_succ, pMainFsm, hrun.guard, hs, he])) hlow'
    | true => exact .startupCclk0 (by simp [loader_succ, pMainFsm, hrun.guard, hs, he]) (hnot hlow')

theorem shape_outputBit (hst : Steady d (loader s inp t)) (hs : (loader s inp t).state = .outputBit)
    (hhigh : cclk s inp t = true → Timed d s inp t) : Shape d s inp (t + 1) := by
  have hrun := h.running t ht
  cases htick : (loader s inp t).tick with
  | false =>
    have hkeep := pins_wait hrun (.inl hs) htick
    refine .outputBit (by simp [loader_succ, pMainFsm, hrun.guard, hs, htick]) fun hh => ?_
    exact (hhigh (hkeep.1 ▸ hh)).next h ht hst htick hkeep.1 hkeep.2
  | true =>
    have hlow := cclk_low_of_tick hrun (.inl hs) htick
    cases hd : (inp t).doneSynced with
    | true => exact .low (.inr (by simp [loader_succ, pMainFsm, hrun.guard, hs, htick, hd])) hlow
    | false =>
      exact .clockEdge (by simp [loader_succ, pMainFsm, hrun.guard, hs, htick, hd]) hlow
        (h.timed ht hst htick)

theorem shape_clockEdge (hst : Steady d (loader s inp t)) (hs : (loader s inp t).state = .clockEdge)
    (hlow : cclk s inp t = false) (htimed : Timed d s inp t) : Shape d s inp (t + 1) := by
  have hrun := h.running t ht
  cases htick : (loader s inp t).tick with
  | false =>
    have hkeep := pins_wait hrun (.inr hs) htick
    exact .clockEdge (by simp [loader_succ, pMainFsm, hrun.guard, hs, htick]) (hkeep.1.trans hlow)
      (htimed.next h ht hst htick hkeep.1 hkeep.2)
  | true =>
    by_cases hbit : (loader s inp t).bitCounter = 0#5
    · cases hlast : (loader s inp t).dLast with
      | true =>
        refine .waitDone (u := t) (k := 1) ?_ rfl Nat.one_pos ⟨hs, htick, hbit, hlast⟩ Level.first
          (fun m hm hm' => by omega) ?_
        · simp [loader_succ, pMainFsm, hrun.guard, hs, htick, hbit, hlast]
        · simp [loader_succ, pMainFsm, hrun.guard, hs, htick, hbit, hlast]
      | false =>
        exact .readFifo (by simp [loader_succ, pMainFsm, hrun.guard, hs, htick, hbit, hlast])
          fun _ => .inr ⟨t, rfl, hs, htick, hbit, hlast⟩
    · exact .outputBit (by simp [loader_succ, pMainFsm, hrun.guard, hs, htick, hbit])
        fun _ => h.timed ht hst htick

theorem shape_waitDone {u k : ℕ} (hs : (loader s inp t).state = .waitDone) (htk : t = u + k)
    (hpos : 0 < k) (hedge : EntryEdge s inp true u) (hl : Level s inp (k - 1) t)
    (hquiet : ∀ m, 0 < m → m < k → (inp (u + m)).doneSynced = false)
    (hc : (loader s inp t).timeoutCounter.toNat + k = cDoneTimeout.toNat + 1) :
    Shape d s inp (t + 1) := by
  have hrun := h.running t ht
  have hkeep := pins_kept hrun (.inr (.inr (.inr hs)))
  have hl' : Level s inp k (t + 1) := by
    have hnext := hl.next hkeep.1 hkeep.2
    rwa [Nat.sub_add_cancel hpos] at hnext
  by_cases hzero : (loader s inp t).timeoutCounter = 0#21
  · have hd := d.isLt
    have hlong : k = 200001 := by simpa [hzero, cDoneTimeout] using hc
    refine .idle ?_ fun _ => .inl (hl'.shorter (by omega))
    cases hd : (inp t).doneSynced <;> simp [loader_succ, pMainFsm, hrun.guard, hs, hzero, hd]
  cases hdone : (inp t).doneSynced with
  | true =>
    refine .idle (by simp [loader_succ, pMainFsm, hrun.guard, hs, hzero, hdone]) fun _ => ?_
    subst htk
    rcases Nat.lt_or_ge k d.toNat with hlt | hge
    · exact .inr ⟨u, .done k hedge hpos hlt hdone hquiet⟩
    · exact .inl (hl'.shorter hge)
  | false =>
    have hcount : (loader s inp (t + 1)).timeoutCounter = (loader s inp t).timeoutCounter - 1#21 := by
      simp [loader_succ, pMainFsm, hrun.guard, hs, hzero, hdone]
    have hne : (loader s inp t).timeoutCounter.toNat ≠ 0 := fun h => hzero (BitVec.eq_of_toNat_eq h)
    refine .waitDone (u := u) (k := k + 1) ?_ (by omega) (Nat.succ_pos k) hedge hl' (fun m hm hm' => ?_) ?_
    · simp [loader_succ, pMainFsm, hrun.guard, hs, hzero, hdone]
    · rcases Nat.lt_succ_iff_lt_or_eq.mp hm' with hlt | rfl
      · exact hquiet m hm hlt
      · exact htk ▸ hdone
    · rw [hcount, BitVec.toNat_sub_of_le (by simp [BitVec.le_def]; omega)]
      simp
      omega

theorem shape_startupCclk0 (hst : Steady d (loader s inp t))
    (hs : (loader s inp t).state = .startupCclk0)
    (hhigh : cclk s inp t = true → din s inp t = false ∧ Timed d s inp t) : Shape d s inp (t + 1) := by
  have hrun := h.running t ht
  have hdin : din s inp (t + 1) = false := by
    cases htick : (loader s inp t).tick <;> simp [din, loader_succ, pMainFsm, hrun.guard, hs, htick]
  cases htick : (loader s inp t).tick with
  | false =>
    have hkeep := cclk_waits hrun (.inl hs) htick
    refine .startupCclk0 (by simp [loader_succ, pMainFsm, hrun.guard, hs, htick]) fun hh => ?_
    obtain ⟨hdin', htimed⟩ := hhigh (hkeep ▸ hh)
    exact ⟨hdin, htimed.next h ht hst htick hkeep (hdin.trans hdin'.symm)⟩
  | true =>
    exact .startupCclk1 (by simp [loader_succ, pMainFsm, hrun.guard, hs, htick])
      (cclk_low_of_tick hrun (.inr hs) htick) hdin (h.timed ht hst htick)

theorem shape_startupCclk1 (hst : Steady d (loader s inp t))
    (hs : (loader s inp t).state = .startupCclk1) (hlow : cclk s inp t = false)
    (hdin : din s inp t = false) (htimed : Timed d s inp t) : Shape d s inp (t + 1) := by
  have hrun := h.running t ht
  have hdin' : din s inp (t + 1) = din s inp t := by
    cases htick : (loader s inp t).tick <;> simp [din, loader_succ, pMainFsm, hrun.guard, hs, htick]
  cases htick : (loader s inp t).tick with
  | false =>
    have hkeep := cclk_waits hrun (.inr hs) htick
    exact .startupCclk1 (by simp [loader_succ, pMainFsm, hrun.guard, hs, htick]) (hkeep.trans hlow)
      (hdin'.trans hdin) (htimed.next h ht hst htick hkeep hdin')
  | true =>
    by_cases hlast : (loader s inp t).startupCount = cStartupCycles
    · refine .idle (by simp [loader_succ, pMainFsm, hrun.guard, hs, htick, hlast]) fun _ => ?_
      rcases Nat.eq_zero_or_pos d.toNat with h0 | hd
      · exact .inl (h0 ▸ Level.first)
      · exact .inr ⟨t, .startup hd hs htick hlast⟩
    · exact .startupCclk0 (by simp [loader_succ, pMainFsm, hrun.guard, hs, htick, hlast])
        fun _ => ⟨hdin'.trans hdin, h.timed ht hst htick⟩

theorem shape_step (hpos : 0 < t) (hshape : Shape d s inp t) : Shape d s inp (t + 1) := by
  have hst : (loader s inp t).state ≠ .extendProg → Steady d (loader s inp t) :=
    h.steady_of_state (Nat.le_of_lt ht) hpos
  cases hshape with
  | idle hs _ => exact shape_idle h ht hs
  | extendProg hs hl hc => exact shape_extendProg h ht hs hl hc
  | initB hs hl => exact shape_initB h ht hs hl
  | readFifo hs _ => exact shape_readFifo h ht hs
  | low hs hlow => exact shape_low h ht hs hlow
  | outputBit hs hhigh => exact shape_outputBit h ht (hst (by simp [hs])) hs hhigh
  | clockEdge hs hlow htimed => exact shape_clockEdge h ht (hst (by simp [hs])) hs hlow htimed
  | waitDone hs htk hpos hedge hl hquiet hc => exact shape_waitDone h ht hs htk hpos hedge hl hquiet hc
  | startupCclk0 hs hhigh => exact shape_startupCclk0 h ht (hst (by simp [hs])) hs hhigh
  | startupCclk1 hs hlow hdin htimed =>
    exact shape_startupCclk1 h ht (hst (by simp [hs])) hs hlow hdin htimed

end Step

theorem shape_run (h : Session d s inp n) (hpos : 0 < t) (ht : t ≤ n) : Shape d s inp t := by
  induction hpos with
  | refl => exact shape_idle h ht h.idle
  | @step t hpos ih => exact shape_step h ht hpos (ih (Nat.le_of_succ_le ht))

/-! ## The edges -/

section Edge

variable (h : Session d s inp n) (ht : t < n) (hpos : 0 < t)

include h ht hpos

/-- Before a rising edge CCLK and DIN have been stable for as long as the divider says. -/
theorem level_of_rise (hlow : cclk s inp t = false) (hhigh : cclk s inp (t + 1) = true) :
    Level s inp d.toNat t ∧ din s inp (t + 1) = din s inp t := by
  obtain ⟨hrun, htick, hs⟩ := cclk_rises_only hlow hhigh
  constructor
  · cases shape_run h hpos (Nat.le_of_lt ht) with
    | clockEdge _ _ htimed => exact htimed.level htick
    | startupCclk1 _ _ _ htimed => exact htimed.level htick
    | initB hs' _ => rcases hs with hs | hs <;> rcases hs' with hs' | hs' <;> simp [hs] at hs'
    | low hs' _ => rcases hs with hs | hs <;> rcases hs' with hs' | hs' <;> simp [hs] at hs'
    | _ hs' => rcases hs with hs | hs <;> simp [hs] at hs'
  · rcases hs with hs | hs
    · exact XilinxLoader.din_holds_clockEdge hrun hs
    · simp [din, loader_succ, pMainFsm, hrun.guard, hs, htick]

/-- Where CCLK is taken low, it has been stable for as long, or the phase is cut short;
elsewhere DIN is held with it. -/
theorem after_high (hhigh : cclk s inp t = true) :
    (cclk s inp (t + 1) = false ∧ (Level s inp d.toNat t ∨ ∃ u, Cut d s inp u t)) ∨
      (cclk s inp (t + 1) = true ∧ din s inp (t + 1) = din s inp t) := by
  have hrun := h.running t ht
  have hnot : ∀ {p : Prop}, cclk s inp t = false → p :=
    fun hlow => absurd (hlow.symm.trans hhigh) Bool.false_ne_true
  cases shape_run h hpos (Nat.le_of_lt ht) with
  | idle hs hl =>
    cases hstart : (inp t).csrStart with
    | true =>
      refine .inr (hhigh ▸ ?_)
      simp [cclk, din, loader_succ, pMainFsm, hrun.guard, hs, hstart]
    | false =>
      refine .inl ⟨cclk_low_of_idle hrun hs hstart, ?_⟩
      rcases hl hhigh with hl | ⟨u, hclosing⟩
      · exact .inl hl
      · exact .inr ⟨u, .idle hclosing hstart⟩
  | extendProg hs _ _ => exact .inr (hhigh ▸ pins_kept hrun (.inl hs))
  | initB hs _ => exact .inr (hhigh ▸ pins_kept hrun (.inr (hs.imp_right .inl)))
  | readFifo hs hl =>
    refine .inl ⟨cclk_low_of_readFifo hrun hs, ?_⟩
    rcases hl hhigh with hl | ⟨u, rfl, hedge⟩
    · exact .inl hl
    · rcases Nat.eq_zero_or_pos d.toNat with h0 | hd
      · exact .inl (h0 ▸ Level.first)
      · exact .inr ⟨u, .entry hd hedge⟩
  | low _ hlow => exact hnot hlow
  | outputBit hs htimed =>
    cases htick : (loader s inp t).tick with
    | true => exact .inl ⟨cclk_low_of_tick hrun (.inl hs) htick, .inl ((htimed hhigh).level htick)⟩
    | false => exact .inr (hhigh ▸ pins_wait hrun (.inl hs) htick)
  | clockEdge _ hlow _ => exact hnot hlow
  | waitDone hs _ _ _ _ _ _ => exact .inr (hhigh ▸ pins_kept hrun (.inr (.inr (.inr hs))))
  | startupCclk0 hs htimed =>
    obtain ⟨hdin, htimed⟩ := htimed hhigh
    cases htick : (loader s inp t).tick with
    | true => exact .inl ⟨cclk_low_of_tick hrun (.inr hs) htick, .inl (htimed.level htick)⟩
    | false =>
      refine .inr ⟨hhigh ▸ cclk_waits hrun (.inl hs) htick, hdin ▸ ?_⟩
      simp [din, loader_succ, pMainFsm, hrun.guard, hs, htick]
  | startupCclk1 _ hlow _ _ => exact hnot hlow

end Edge

/-- DIN is held through a high phase. -/
theorem din_of_phase (h : Session d s inp n) {u v : ℕ} (hv : v < n) (hphase : Phase s inp true u v)
    {k : ℕ} (huk : u < k) (hkv : k ≤ v) : din s inp k = din s inp (u + 1) := by
  induction huk with
  | refl => rfl
  | @step k huk ih =>
    have hkv' : k ≤ v := Nat.le_of_succ_le hkv
    rcases after_high h (Nat.lt_of_le_of_lt hkv' hv) (Nat.zero_lt_of_lt huk) (hphase.level k huk hkv') with
      ⟨hlow, -⟩ | ⟨-, hdin⟩
    · exact absurd (hlow.symm.trans (hphase.level (k + 1) (Nat.lt_succ_of_lt huk) hkv)) Bool.false_ne_true
    · exact hdin.trans (ih hkv')

/-! ## The phases -/

/-- CCLK is low as long as the divider says, in every run. -/
theorem low_phase (h : Session d s inp n) {u v : ℕ} (hv : v < n) (hphase : Phase s inp false u v) :
    d.toNat + 1 ≤ v - u :=
  hphase.length (level_of_rise h hv (Nat.zero_lt_of_lt hphase.lt)
    (hphase.level v hphase.lt (Nat.le_refl v)) hphase.ends).1

/-- DIN is set up and held as long as the divider says, in every run. -/
theorem din_around_rise (h : Session d s inp n) {u v : ℕ} (hv : v < n) (hlow : cclk s inp u = false)
    (hphase : Phase s inp true u v) :
    d.toNat ≤ u ∧ ∀ k, u ≤ k + d.toNat → k ≤ v → din s inp k = din s inp v := by
  have hrise : cclk s inp (u + 1) = true := hphase.level (u + 1) (Nat.lt_succ_self u) hphase.lt
  have hpos : 0 < u := by
    rcases Nat.eq_zero_or_pos u with rfl | hpos
    · -- The START leaves CCLK as it is.
      have hkeep : cclk s inp 1 = cclk s inp 0 := by
        have hrun := h.running 0 (Nat.zero_lt_of_lt hv)
        have hs : (loader s inp 0).state = .idle := h.idle
        simp [cclk, loader_succ, pMainFsm, hrun.guard, hs, h.start]
      rw [hkeep, hlow] at hrise
      exact absurd hrise Bool.false_ne_true
    · exact hpos
  obtain ⟨hl, hdin⟩ := level_of_rise h (Nat.lt_trans hphase.lt hv) hpos hlow hrise
  have hlast : din s inp v = din s inp (u + 1) := din_of_phase h hv hphase hphase.lt (Nat.le_refl v)
  refine ⟨Nat.le_of_lt hl.1, fun k hk hkv => hlast ▸ ?_⟩
  rcases Nat.lt_or_ge u k with huk | hku
  · exact din_of_phase h hv hphase huk hkv
  · exact ((hl.2 k hk hku).2).trans hdin.symm

/-- CCLK is high as long as the divider says, unless the phase is cut short. -/
theorem high_phase (h : Session d s inp n) {u v : ℕ} (hv : v < n) (hphase : Phase s inp true u v)
    (hcut : ∀ u, ¬ Cut d s inp u v) : d.toNat + 1 ≤ v - u := by
  rcases after_high h hv (Nat.zero_lt_of_lt hphase.lt) (hphase.level v hphase.lt (Nat.le_refl v)) with
    ⟨-, hl | ⟨u', hcut'⟩⟩ | ⟨hhigh, -⟩
  · exact hphase.length hl
  · exact absurd hcut' (hcut u')
  · exact absurd (hphase.ends.symm.trans hhigh) Bool.false_ne_true

/-! ## The phases that are cut short -/

theorem low_of_edge (h : Session d s inp n) {u : ℕ} (hu : u < n)
    (hs : (loader s inp u).state = .clockEdge ∨ (loader s inp u).state = .startupCclk1) :
    cclk s inp u = false := by
  have hpos : 0 < u := by
    rcases Nat.eq_zero_or_pos u with rfl | hpos
    · have hidle : (loader s inp 0).state = .idle := h.idle
      rcases hs with hs | hs <;> simp [hidle] at hs
    · exact hpos
  cases shape_run h hpos (Nat.le_of_lt hu) with
  | clockEdge _ hlow _ => exact hlow
  | startupCclk1 _ hlow _ _ => exact hlow
  | initB hs' _ => rcases hs with hs | hs <;> rcases hs' with hs' | hs' <;> simp [hs] at hs'
  | low hs' _ => rcases hs with hs | hs <;> rcases hs' with hs' | hs' <;> simp [hs] at hs'
  | _ hs' => rcases hs with hs | hs <;> simp [hs] at hs'

/-- `WAIT_DONE` before the timeout. -/
theorem waitDone_step {r : Regs} {i : In} (hrun : i.Running) (hs : r.state = .waitDone)
    (hzero : r.timeoutCounter ≠ 0#21) :
    (XilinxLoader.step r i).state = (if i.doneSynced then .idle else .waitDone) ∧
      (XilinxLoader.step r i).xlxCclk = r.xlxCclk ∧
      (XilinxLoader.step r i).timeoutCounter.toNat + 1 = r.timeoutCounter.toNat := by
  have hne : r.timeoutCounter.toNat ≠ 0 := fun h => hzero (BitVec.eq_of_toNat_eq h)
  have hcount : (XilinxLoader.step r i).timeoutCounter = r.timeoutCounter - 1#21 := by
    cases hd : i.doneSynced <;> simp [pMainFsm, hrun.guard, hs, hzero, hd]
  refine ⟨?_, ?_, ?_⟩
  · cases hd : i.doneSynced <;> simp [pMainFsm, hrun.guard, hs, hzero, hd]
  · cases hd : i.doneSynced <;> simp [pMainFsm, hrun.guard, hs, hzero, hd]
  · rw [hcount, BitVec.toNat_sub_of_le (by simp [BitVec.le_def]; omega)]
    simp
    omega

/-- It holds CCLK high until DONE. -/
theorem high_until_done (h : Session d s inp n) {u : ℕ} (hedge : EntryEdge s inp true u) {k : ℕ}
    (hk : k ≤ d.toNat) (hn : u + 1 + k ≤ n)
    (hquiet : ∀ m, 0 < m → m < k + 1 → (inp (u + m)).doneSynced = false) :
    (loader s inp (u + 1 + k)).state = .waitDone ∧ cclk s inp (u + 1 + k) = true ∧
      (loader s inp (u + 1 + k)).timeoutCounter ≠ 0#21 := by
  suffices hwait : (loader s inp (u + 1 + k)).state = .waitDone ∧ cclk s inp (u + 1 + k) = true ∧
      (loader s inp (u + 1 + k)).timeoutCounter.toNat + k = 200000 by
    obtain ⟨hs, hhigh, hc⟩ := hwait
    have hd := d.isLt
    refine ⟨hs, hhigh, fun hz => ?_⟩
    rw [hz] at hc
    simp at hc
    omega
  induction k with
  | zero =>
    have hrun := h.running u (by omega)
    simp [cclk, loader_succ, pMainFsm, hrun.guard, hedge.state, hedge.tick, hedge.bit, hedge.last,
      cDoneTimeout]
  | succ k ih =>
    obtain ⟨hs, hhigh, hc⟩ := ih (by omega) (by omega) fun m hm hm' => hquiet m hm (by omega)
    have hrun := h.running (u + 1 + k) (by omega)
    have hdone : (inp (u + 1 + k)).doneSynced = false := by
      rw [show u + 1 + k = u + (k + 1) by omega]
      exact hquiet (k + 1) (by omega) (by omega)
    have hd := d.isLt
    have hzero : (loader s inp (u + 1 + k)).timeoutCounter ≠ 0#21 := by
      intro hz
      rw [hz] at hc
      simp at hc
      omega
    obtain ⟨hs', hhigh', hc'⟩ := waitDone_step (i := inp (u + 1 + k)) hrun hs hzero
    rw [hdone, if_neg Bool.false_ne_true] at hs'
    rw [← loader_succ] at hs' hhigh' hc'
    refine ⟨hs', hhigh'.trans hhigh, ?_⟩
    show (loader s inp (u + 1 + k + 1)).timeoutCounter.toNat + (k + 1) = 200000
    omega

/-- What closes a phase in `IDLE` closes a short one. -/
theorem closing_phase (h : Session d s inp n) {u v : ℕ} (hv : v < n) (hclosing : Closing d s inp u v) :
    u < v ∧ v ≤ u + d.toNat ∧ cclk s inp u = false ∧ (∀ k, u < k → k ≤ v → cclk s inp k = true) ∧
      (loader s inp v).state = .idle := by
  cases hclosing with
  | done k hedge hpos hk hdone hquiet =>
    obtain ⟨j, rfl⟩ : ∃ j, k = j + 1 := ⟨k - 1, by omega⟩
    have hwait : ∀ i, i ≤ j → _ := fun i hi =>
      high_until_done h hedge (k := i) (by omega) (by omega) fun m hm hm' => hquiet m hm (by omega)
    obtain ⟨hs, hhigh, hzero⟩ := hwait j (Nat.le_refl j)
    have hdone' : (inp (u + 1 + j)).doneSynced = true := by
      rw [show u + 1 + j = u + (j + 1) by omega]
      exact hdone
    obtain ⟨hs', hhigh', -⟩ := waitDone_step (h.running (u + 1 + j) (by omega)) hs hzero
    rw [hdone', if_pos rfl] at hs'
    rw [← loader_succ] at hs' hhigh'
    rw [show u + (j + 1) + 1 = u + 1 + j + 1 by omega]
    refine ⟨by omega, by omega, low_of_edge h (by omega) (.inl hedge.state), fun k huk hkv => ?_, hs'⟩
    rcases Nat.le_succ_iff.mp hkv with hle | rfl
    · obtain ⟨i, rfl⟩ : ∃ i, k = u + 1 + i := ⟨k - u - 1, by omega⟩
      exact (hwait i (by omega)).2.1
    · exact hhigh'.trans hhigh
  | startup hd hs htick hc =>
    have hrun := h.running u (by omega)
    refine ⟨Nat.lt_succ_self u, by omega, low_of_edge h (by omega) (.inr hs), fun k huk hkv => ?_, ?_⟩
    · obtain rfl : k = u + 1 := by omega
      simp [cclk, loader_succ, pMainFsm, hrun.guard, hs, htick]
    · simp [loader_succ, pMainFsm, hrun.guard, hs, htick, hc]

/-- A phase that is cut is short. -/
theorem short_of_cut (h : Session d s inp n) {u v : ℕ} (hv : v < n) (hcut : Cut d s inp u v) :
    Phase s inp true u v ∧ v - u ≤ d.toNat := by
  have hrun := h.running v hv
  cases hcut with
  | entry hd hedge =>
    have hrunu := h.running u (by omega)
    have hs : (loader s inp (u + 1)).state = .readFifo := by
      simp [loader_succ, pMainFsm, hrunu.guard, hedge.state, hedge.tick, hedge.bit, hedge.last]
    refine ⟨⟨Nat.lt_succ_self u, .inr (low_of_edge h (by omega) (.inl hedge.state)), fun k huk hkv => ?_, ?_⟩,
      by omega⟩
    · obtain rfl : k = u + 1 := by omega
      simp [cclk, loader_succ, pMainFsm, hrunu.guard, hedge.state, hedge.tick, hedge.bit, hedge.last]
    · rw [cclk, loader_succ]
      simp [pMainFsm, hrun.guard, hs]
  | idle hclosing hstart =>
    obtain ⟨huv, hshort, hlow, hlevel, hs⟩ := closing_phase h hv hclosing
    refine ⟨⟨huv, .inr hlow, hlevel, ?_⟩, by omega⟩
    rw [cclk, loader_succ]
    simp [pMainFsm, hrun.guard, hs, hstart]

end Run

/-- A load with CLKDIV = 1 and words of one byte that are always ready, none of them marked as the
last one.  INIT_B answers at once. -/
def slowLoad (t : ℕ) : In := { shortLoad false 5000 (t + 1) with csrClkDiv := 1#7 }

theorem slowLoad_session (n : ℕ) : Session 1#7 default slowLoad n where
  idle := rfl
  start := rfl
  running t _ := ⟨decide_eq_true (Nat.succ_pos t), rfl⟩
  divider _ _ := rfl

/-- Between two entries CCLK is high for one cycle. -/
theorem runt_between_entries :
    ¬ ∀ (d : BitVec 7) (s : Regs) (inp : ℕ → In) (n : ℕ), Session d s inp n → Respects d s inp n := by
  intro hall
  obtain ⟨hbefore, hlevel, hafter⟩ : cclk default slowLoad 1038 = false ∧ cclk default slowLoad 1039 = true ∧
      cclk default slowLoad 1040 = false := by decide +kernel
  have hphase : Phase default slowLoad true 1038 1039 :=
    ⟨by decide, .inr hbefore, fun k hk hk' => by
      obtain rfl : k = 1039 := by omega
      exact hlevel, hafter⟩
  exact absurd ((hall 1#7 default slowLoad 1040 (slowLoad_session 1040)).high 1038 1039 (by decide) hphase)
    (by decide)

/-- CCLK and DIN respect the divider exactly if no high phase is cut short. -/
theorem respects_iff (d : BitVec 7) (s : Regs) (inp : ℕ → In) (n : ℕ) (h : Session d s inp n) :
    Respects d s inp n ↔ ∀ u v, v < n → ¬ Cut d s inp u v := by
  constructor
  · intro hresp u v hv hcut
    obtain ⟨hphase, hshort⟩ := short_of_cut h hv hcut
    have hlong := hresp.high u v hv hphase
    omega
  · intro hcut
    exact ⟨fun u v hv hphase => low_phase h hv hphase,
      fun u v hv hphase => high_phase h hv hphase fun u' => hcut u' v hv,
      fun u v hv hlow hphase => din_around_rise h hv hlow hphase⟩

/-- The edge at the end of the first entry. -/
theorem respects_iff_slow : ¬ Respects 1#7 default slowLoad 1040 := by
  intro h
  obtain ⟨hs, htick, hbit, hlast⟩ : (loader default slowLoad 1038).state = .clockEdge ∧
      (loader default slowLoad 1038).tick = true ∧ (loader default slowLoad 1038).bitCounter = 0#5 ∧
      (loader default slowLoad 1038).dLast = false := by decide +kernel
  exact (respects_iff 1#7 default slowLoad 1040 (slowLoad_session 1040)).mp h 1038 1039 (by decide)
    (.entry (by decide) ⟨hs, htick, hbit, hlast⟩)

end Svec.Loader.ClockShape
