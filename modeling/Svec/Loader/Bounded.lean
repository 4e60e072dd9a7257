/-
  Loader/Bounded.lean --- how long a configuration takes.

  Every state of a configuration but one waits for something that comes by itself:
  a counter that runs out, a tick of the divider, an entry that the FIFO has.
  `WAIT_INIT2` waits for INIT_B to go high, and has no timeout.  The budget counts
  the cycles that are left at most in each of the other states without a look at
  the pins, so it bounds the configuration as soon as INIT_B is released.
-/
import Svec.Hdl.Fifo
import Svec.Loader.Flags

set_option autoImplicit false

namespace Svec.Loader.Bounded

open Svec.Data Svec.Sync Svec.Hdl Svec.Loader
open Svec.Hdl.XilinxLoader (Regs In State pMainFsm pDivideClock cMinProgDelay cInitTimeout cDoneTimeout)

/-! ## Runs with a FIFO that has every entry in time -/

/-- The entries that `READ_FIFO` has taken in the cycles before `t`. -/
def fifoReads (r : Regs) (inp : ℕ → In) : ℕ → ℕ
  | 0 => 0
  | t + 1 => fifoReads r inp t +
      if (loader r inp t).state = .readFifo ∧ (inp t).csrEmpty = false then 1 else 0

/-- A run of the loader from an accepted START on, with the divider `d` and a FIFO that supplies
`entries`, the last of them marked with XLAST. -/
structure LoadRun (d : BitVec 7) (entries : List FifoEntry) where
  r : Regs
  inp : ℕ → In
  idle : r.state = .idle
  start : (inp 0).csrStart = true
  running : ∀ t, (inp t).Running
  divider : ∀ t, (inp t).csrClkDiv = d
  supplied : ∀ t, (loader r inp t).state = .readFifo → fifoReads r inp t < entries.length →
    (inp t).csrEmpty = false
  shown : ∀ t e, (loader r inp t).state = .readFifo2 → entries[fifoReads r inp t - 1]? = some e →
    (inp t).csrData = e.xdata ∧ (inp t).csrDsize = e.xsize ∧ (inp t).csrDlast = e.xlast
  marked : ∃ e, entries.getLast? = some e ∧ e.xlast = true

variable {d : BitVec 7} {entries : List FifoEntry}

/-- The loader at every cycle of the run. -/
def LoadRun.regs (R : LoadRun d entries) (t : ℕ) : Regs := loader R.r R.inp t

/-- The entries taken so far. -/
def LoadRun.taken (R : LoadRun d entries) (t : ℕ) : ℕ := fifoReads R.r R.inp t

/-- `csr_done_o` becomes 1 within `n` cycles of the START. -/
def LoadRun.DoneWithin (R : LoadRun d entries) (n : ℕ) : Prop :=
  ∃ t, 0 < t ∧ t ≤ n ∧ (R.regs t).csrDone = true

/-- The first cycle of `WAIT_INIT`. -/
def answerFrom : ℕ := cMinProgDelay.toNat + 2

/-- The cycle in which the timeout of `WAIT_INIT` expires. -/
def answerUntil : ℕ := answerFrom + cInitTimeout.toNat

/-- INIT_B answers the START in cycle `c`, before the timeout. -/
structure LoadRun.AnswersAt (R : LoadRun d entries) (c : ℕ) : Prop where
  inTime : answerFrom ≤ c ∧ c < answerUntil
  low : (R.inp c).initBSynced = false
  first : ∀ k, answerFrom ≤ k → k < c → (R.inp k).initBSynced = true

/-- INIT_B, once it has answered, is high again within `w` cycles. -/
def LoadRun.ReleasedWithin (R : LoadRun d entries) (w : ℕ) : Prop :=
  ∀ c, R.AnswersAt c → ∃ m, c < m ∧ m ≤ c + w ∧ (R.inp m).initBSynced = true

/-! ## The divider -/

/-- The cycles to the next tick. -/
def tickGap (d : BitVec 7) (r : Regs) : ℕ := if r.tick then 0 else d.toNat - r.clkDiv.toNat + 1

/-- The divider counts between 0 and `d`, and is 0 in the cycle of the tick. -/
structure Steady (d : BitVec 7) (r : Regs) : Prop where
  le : r.clkDiv.toNat ≤ d.toNat
  tick : r.tick = true → r.clkDiv = 0#7

theorem Steady.gap_le {r : Regs} (_ : Steady d r) : tickGap d r ≤ d.toNat + 1 := by
  unfold tickGap
  split <;> omega

/-- Each cycle brings the tick nearer, and after it the next one is `d` cycles away. -/
theorem steady_step {r : Regs} {i : In} (h : Steady d r) (hrst : i.rstN = true) (hdiv : i.csrClkDiv = d) :
    Steady d (XilinxLoader.step r i) ∧
      tickGap d (XilinxLoader.step r i) = if r.tick then d.toNat else tickGap d r - 1 := by
  have hle := h.le
  by_cases hmeet : r.clkDiv = d
  · obtain ⟨hclk, htick⟩ :
        (XilinxLoader.step r i).clkDiv = 0#7 ∧ (XilinxLoader.step r i).tick = true := by
      rw [XilinxLoader.step_clkDiv, XilinxLoader.step_tick, pDivideClock, hrst, hdiv, hmeet]
      simp
    generalize XilinxLoader.step r i = r' at hclk htick ⊢
    refine ⟨⟨by simp [hclk], fun _ => hclk⟩, ?_⟩
    cases ht : r.tick with
    | true =>
      -- A tick in the cycle before as well: the divider value is 0.
      have hzero : d = 0#7 := hmeet.symm.trans (h.tick ht)
      simp [tickGap, htick, hzero]
    | false => simp [tickGap, htick, ht, hmeet]
  · obtain ⟨hclk, htick⟩ :
        (XilinxLoader.step r i).clkDiv = r.clkDiv + 1#7 ∧ (XilinxLoader.step r i).tick = false := by
      rw [XilinxLoader.step_clkDiv, XilinxLoader.step_tick, pDivideClock, hrst, hdiv]
      simp [hmeet]
    have hne : r.clkDiv.toNat ≠ d.toNat := fun heq => hmeet (BitVec.eq_of_toNat_eq heq)
    have hlt := d.isLt
    have hnext : (r.clkDiv + 1#7).toNat = r.clkDiv.toNat + 1 := add_one_toNat (by omega)
    generalize XilinxLoader.step r i = r' at hclk htick ⊢
    refine ⟨⟨by rw [hclk, hnext]; omega, fun ht => ?_⟩, ?_⟩
    · rw [htick] at ht
      exact absurd ht Bool.false_ne_true
    · simp only [tickGap, htick, hclk, hnext, Bool.false_eq_true, if_false]
      cases ht : r.tick with
      | true =>
        have hzero : r.clkDiv.toNat = 0 := by simp [h.tick ht]
        simp only [if_true]
        omega
      | false =>
        simp only [Bool.false_eq_true, if_false]
        omega

/-- Whatever the divider counted from, it is steady from the first tick on. -/
theorem steady_run {s : Regs} {inp : ℕ → In} (hrst : ∀ t, (inp t).rstN = true)
    (hdiv : ∀ t, (inp t).csrClkDiv = d) {t : ℕ} (ht : 128 ≤ t) : Steady d (loader s inp t) := by
  obtain ⟨u, hpos, hu, htick⟩ :=
    XilinxLoader.tick_recurs (fun t => loader_succ s inp t) hrst hdiv 0
  obtain ⟨v, rfl⟩ : ∃ v, u = v + 1 := ⟨u - 1, by omega⟩
  have hzero : (loader s inp (v + 1)).clkDiv = 0#7 := by
    rw [loader_succ, XilinxLoader.step_tick, pDivideClock, hrst] at htick
    rw [loader_succ, XilinxLoader.step_clkDiv, pDivideClock, hrst]
    by_cases hmeet : (loader s inp v).clkDiv = (inp v).csrClkDiv <;> simp [hmeet] at htick ⊢
  have hfirst : Steady d (loader s inp (v + 1)) := ⟨by simp [hzero], fun _ => hzero⟩
  exact invariant_since (I := fun _ (r : Regs) => Steady d r) hfirst (by omega) fun k _ _ h =>
    (steady_step h (hrst k) (hdiv k)).1

/-! ## The cycles that are left -/

/-- From a FIFO read to the last edge of the entry: at most 32 bits of two ticks each. -/
def entryCycles (d : BitVec 7) : ℕ := 66 * (d.toNat + 1) + 1

/-- The cycles that are left at most before the one that sets the flag, with `left` entries
still in the FIFO. -/
def budget (d : BitVec 7) (left : ℕ) (r : Regs) : ℕ :=
  let rest := left * entryCycles d + cDoneTimeout.toNat
  match r.state with
  | .readFifo => rest
  | .readFifo2 => tickGap d r + 1 + 64 * (d.toNat + 1) + rest
  | .outputBit => tickGap d r + 1 + (2 * r.bitCounter.toNat + 1) * (d.toNat + 1) + rest
  | .clockEdge => tickGap d r + 1 + 2 * r.bitCounter.toNat * (d.toNat + 1) + rest
  | .waitDone => r.timeoutCounter.toNat
  | _ => 0

/-- The entry that is being sent is the last one taken. -/
def Holds (entries : List FifoEntry) (k : ℕ) (r : Regs) : Prop :=
  0 < k ∧ ∃ e, entries[k - 1]? = some e ∧ r.dLast = e.xlast

/-- The loader past the wait for INIT_B, with `k` entries taken. -/
inductive Loading (entries : List FifoEntry) (k : ℕ) (r : Regs) : Prop where
  | readFifo (hs : r.state = .readFifo) (hk : k < entries.length)
  | readFifo2 (hs : r.state = .readFifo2) (hk : 0 < k ∧ k ≤ entries.length)
  | outputBit (hs : r.state = .outputBit) (he : Holds entries k r)
  | clockEdge (hs : r.state = .clockEdge) (he : Holds entries k r)
  | waitDone (hs : r.state = .waitDone)
  | gotDone (hs : r.state = .gotDone)

/-- What is left in cycle `t` of the run. -/
def LoadRun.left (R : LoadRun d entries) (t : ℕ) : ℕ :=
  budget d (entries.length - R.taken t) (R.regs t)

theorem LoadRun.regs_succ (R : LoadRun d entries) (t : ℕ) :
    R.regs (t + 1) = XilinxLoader.step (R.regs t) (R.inp t) := rfl

/-- Only `READ_FIFO` takes an entry. -/
theorem LoadRun.taken_succ (R : LoadRun d entries) {t : ℕ} (h : (R.regs t).state ≠ .readFifo) :
    R.taken (t + 1) = R.taken t := by
  unfold LoadRun.taken
  rw [fifoReads, if_neg fun h' => h h'.1, Nat.add_zero]

/-- An entry that is not the last one leaves another in the FIFO. -/
theorem LoadRun.more (R : LoadRun d entries) {t : ℕ} (he : Holds entries (R.taken t) (R.regs t))
    (hlast : (R.regs t).dLast = false) : R.taken t < entries.length := by
  obtain ⟨hpos, e, hget, hd⟩ := he
  obtain ⟨e', hget', hmark⟩ := R.marked
  have hlt := (List.getElem?_eq_some_iff.mp hget).1
  rcases Nat.lt_or_ge (R.taken t) entries.length with h | h
  · exact h
  · rw [List.getLast?_eq_getElem?, show entries.length - 1 = R.taken t - 1 by omega, hget] at hget'
    cases hget'
    rw [hd, hmark] at hlast
    exact absurd hlast (by decide)

section Step

variable (R : LoadRun d entries) {t : ℕ}

/-- What a cycle that waits for the tick leaves. -/
theorem LoadRun.wait (hst : Steady d (R.regs t)) (ht : (R.regs t).tick = false) :
    tickGap d (R.regs (t + 1)) + 1 = tickGap d (R.regs t) := by
  have h := (steady_step hst (R.running t).1 (R.divider t)).2
  rw [← R.regs_succ, ht] at h
  have hpos : 0 < tickGap d (R.regs t) := by simp [tickGap, ht]
  simp only [Bool.false_eq_true, if_false] at h
  omega

/-- What a cycle with the tick leaves. -/
theorem LoadRun.ticked (hst : Steady d (R.regs t)) (ht : (R.regs t).tick = true) :
    tickGap d (R.regs t) = 0 ∧ tickGap d (R.regs (t + 1)) = d.toNat := by
  have h := (steady_step hst (R.running t).1 (R.divider t)).2
  rw [← R.regs_succ, ht] at h
  exact ⟨by simp [tickGap, ht], h⟩

/-- The flag is set, or the budget is cut. -/
def LoadRun.Advances (t : ℕ) : Prop :=
  (R.regs (t + 1)).csrDone = true ∨
    (Loading entries (R.taken (t + 1)) (R.regs (t + 1)) ∧ R.left (t + 1) < R.left t)

theorem LoadRun.readFifo_advances (hst : Steady d (R.regs t)) (hs : (R.regs t).state = .readFifo)
    (hk : R.taken t < entries.length) : R.Advances t := by
  have hempty := R.supplied t hs hk
  have hnext : (R.regs (t + 1)).state = .readFifo2 :=
    XilinxLoader.readFifo2_of_entry (R.running t) hs hempty
  have htaken : R.taken (t + 1) = R.taken t + 1 := by
    unfold LoadRun.taken
    rw [fifoReads, if_pos ⟨hs, hempty⟩]
  refine .inr ⟨.readFifo2 hnext (by omega), ?_⟩
  have hgap := (steady_step hst (R.running t).1 (R.divider t)).1.gap_le
  rw [← R.regs_succ] at hgap
  obtain ⟨n, hn⟩ : ∃ n, entries.length - R.taken t = n + 1 := ⟨entries.length - R.taken t - 1, by omega⟩
  have hn' : entries.length - R.taken (t + 1) = n := by omega
  simp only [LoadRun.left, budget, hs, hnext, hn, hn', Nat.succ_mul]
  simp only [entryCycles]
  omega

theorem LoadRun.readFifo2_advances (hst : Steady d (R.regs t)) (hs : (R.regs t).state = .readFifo2)
    (hk : 0 < R.taken t ∧ R.taken t ≤ entries.length) : R.Advances t := by
  have htaken := R.taken_succ (t := t) (by simp [hs])
  cases ht : (R.regs t).tick with
  | false =>
    have hnext : (R.regs (t + 1)).state = .readFifo2 :=
      XilinxLoader.readFifo2_wait (R.running t) hs ht
    refine .inr ⟨.readFifo2 hnext (by omega), ?_⟩
    have hgap := R.wait hst ht
    simp only [LoadRun.left, budget, hs, hnext, htaken]
    omega
  | true =>
    have hnext : (R.regs (t + 1)).state = .outputBit :=
      XilinxLoader.outputBit_of_tick (R.running t) hs ht
    obtain ⟨e, he⟩ : ∃ e, entries[R.taken t - 1]? = some e :=
      ⟨_, List.getElem?_eq_getElem (by omega)⟩
    have hlast : (R.regs (t + 1)).dLast = e.xlast := by
      rw [R.regs_succ, XilinxLoader.step_dLast, ← (R.shown t e hs he).2.2]
      simp [pMainFsm, (R.running t).guard, hs, ht]
    refine .inr ⟨.outputBit hnext ⟨by omega, e, by rw [htaken, he], hlast⟩, ?_⟩
    obtain ⟨hgap, hgap'⟩ := R.ticked hst ht
    have hbits : (R.regs (t + 1)).bitCounter.toNat ≤ 31 := by
      have := (R.regs (t + 1)).bitCounter.isLt
      omega
    have hmul := Nat.mul_le_mul_right (d.toNat + 1) (show 2 * (R.regs (t + 1)).bitCounter.toNat + 1 ≤ 63 by omega)
    simp only [LoadRun.left, budget, hs, hnext, htaken, hgap, hgap']
    omega

theorem LoadRun.outputBit_advances (hst : Steady d (R.regs t)) (hs : (R.regs t).state = .outputBit)
    (he : Holds entries (R.taken t) (R.regs t)) : R.Advances t := by
  have htaken := R.taken_succ (t := t) (by simp [hs])
  have hkeep : (R.regs (t + 1)).dLast = (R.regs t).dLast ∧
      (R.regs (t + 1)).bitCounter = (R.regs t).bitCounter := by
    rw [R.regs_succ, XilinxLoader.step_dLast, XilinxLoader.step_bitCounter]
    cases ht : (R.regs t).tick <;> simp [pMainFsm, (R.running t).guard, hs, ht]
  have he' : Holds entries (R.taken (t + 1)) (R.regs (t + 1)) := by
    rw [Holds, htaken, hkeep.1]
    exact he
  cases ht : (R.regs t).tick with
  | false =>
    have hnext : (R.regs (t + 1)).state = .outputBit := by
      rw [R.regs_succ]
      simp [pMainFsm, (R.running t).guard, hs, ht]
    refine .inr ⟨.outputBit hnext he', ?_⟩
    have hgap := R.wait hst ht
    simp only [LoadRun.left, budget, hs, hnext, htaken, hkeep.2]
    omega
  | true =>
    obtain ⟨hgap, hgap'⟩ := R.ticked hst ht
    cases hd : (R.inp t).doneSynced with
    | true =>
      have hnext : (R.regs (t + 1)).state = .gotDone := by
        rw [R.regs_succ]
        simp [pMainFsm, (R.running t).guard, hs, ht, hd]
      refine .inr ⟨.gotDone hnext, ?_⟩
      simp only [LoadRun.left, budget, hs, hnext]
      omega
    | false =>
      have hnext : (R.regs (t + 1)).state = .clockEdge := by
        rw [R.regs_succ]
        simp [pMainFsm, (R.running t).guard, hs, ht, hd]
      refine .inr ⟨.clockEdge hnext he', ?_⟩
      simp only [LoadRun.left, budget, hs, hnext, htaken, hkeep.2, hgap, hgap', Nat.add_mul, Nat.one_mul]
      omega

theorem LoadRun.clockEdge_advances (hst : Steady d (R.regs t)) (hs : (R.regs t).state = .clockEdge)
    (he : Holds entries (R.taken t) (R.regs t)) : R.Advances t := by
  have htaken := R.taken_succ (t := t) (by simp [hs])
  have hlast : (R.regs (t + 1)).dLast = (R.regs t).dLast := by
    rw [R.regs_succ, XilinxLoader.step_dLast, pMainFsm, (R.running t).guard, hs]
    simp only [Bool.false_eq_true, if_false]
    repeat' split
    all_goals rfl
  have he' : Holds entries (R.taken (t + 1)) (R.regs (t + 1)) := by
    rw [Holds, htaken, hlast]
    exact he
  cases ht : (R.regs t).tick with
  | false =>
    obtain ⟨hnext, hbits⟩ : (R.regs (t + 1)).state = .clockEdge ∧
        (R.regs (t + 1)).bitCounter = (R.regs t).bitCounter := by
      rw [R.regs_succ]
      simp [pMainFsm, (R.running t).guard, hs, ht]
    refine .inr ⟨.clockEdge hnext he', ?_⟩
    have hgap := R.wait hst ht
    simp only [LoadRun.left, budget, hs, hnext, htaken, hbits]
    omega
  | true =>
    obtain ⟨hgap, hgap'⟩ := R.ticked hst ht
    by_cases hzero : (R.regs t).bitCounter = 0#5
    swap
    · obtain ⟨hnext, hbits⟩ : (R.regs (t + 1)).state = .outputBit ∧
          (R.regs (t + 1)).bitCounter = (R.regs t).bitCounter - 1#5 := by
        rw [R.regs_succ]
        simp [pMainFsm, (R.running t).guard, hs, ht, hzero]
      obtain ⟨b, hb⟩ : ∃ b, (R.regs t).bitCounter.toNat = b + 1 :=
        Nat.exists_eq_succ_of_ne_zero fun h => hzero (BitVec.eq_of_toNat_eq h)
      have hb' : ((R.regs t).bitCounter - 1#5).toNat = b := by
        have := (R.regs t).bitCounter.isLt
        rw [BitVec.toNat_sub_of_le (by simp [BitVec.le_def, hb]), hb]
        rfl
      refine .inr ⟨.outputBit hnext he', ?_⟩
      simp only [LoadRun.left, budget, hs, hnext, htaken, hbits, hgap, hgap', hb, hb', Nat.mul_succ,
        Nat.add_mul]
      omega
    cases hmark : (R.regs t).dLast with
    | true =>
      obtain ⟨hnext, hcount⟩ : (R.regs (t + 1)).state = .waitDone ∧
          (R.regs (t + 1)).timeoutCounter = cDoneTimeout := by
        rw [R.regs_succ]
        simp [pMainFsm, (R.running t).guard, hs, ht, hzero, hmark]
      refine .inr ⟨.waitDone hnext, ?_⟩
      simp only [LoadRun.left, budget, hs, hnext, hcount]
      omega
    | false =>
      have hnext : (R.regs (t + 1)).state = .readFifo := by
        rw [R.regs_succ]
        simp [pMainFsm, (R.running t).guard, hs, ht, hzero, hmark]
      refine .inr ⟨.readFifo hnext (htaken ▸ R.more he hmark), ?_⟩
      simp only [LoadRun.left, budget, hs, hnext, htaken]
      omega

theorem LoadRun.waitDone_advances (hs : (R.regs t).state = .waitDone) : R.Advances t := by
  by_cases hzero : (R.regs t).timeoutCounter = 0#21
  · refine .inl ?_
    rw [R.regs_succ]
    simp [pMainFsm, (R.running t).guard, hs, hzero]
  cases hd : (R.inp t).doneSynced with
  | true =>
    refine .inl ?_
    rw [R.regs_succ]
    simp [pMainFsm, (R.running t).guard, hs, hzero, hd]
  | false =>
    obtain ⟨hnext, hcount⟩ : (R.regs (t + 1)).state = .waitDone ∧
        (R.regs (t + 1)).timeoutCounter = (R.regs t).timeoutCounter - 1#21 := by
      rw [R.regs_succ]
      simp [pMainFsm, (R.running t).guard, hs, hzero, hd]
    refine .inr ⟨.waitDone hnext, ?_⟩
    have hpos : (R.regs t).timeoutCounter.toNat ≠ 0 := fun h => hzero (BitVec.eq_of_toNat_eq h)
    simp only [LoadRun.left, budget, hs, hnext, hcount]
    rw [BitVec.toNat_sub_of_le (by simp [BitVec.le_def]; omega)]
    simp
    omega

theorem LoadRun.gotDone_advances (hs : (R.regs t).state = .gotDone) : R.Advances t := by
  refine .inl ?_
  rw [R.regs_succ]
  cases h : (R.inp t).csrStartup <;> simp [pMainFsm, (R.running t).guard, hs, h]

/-- No cycle after the wait for INIT_B is lost, whatever the two pins do. -/
theorem LoadRun.advances (ht : 128 ≤ t) (h : Loading entries (R.taken t) (R.regs t)) : R.Advances t := by
  have hst : Steady d (R.regs t) := steady_run (fun t => (R.running t).1) R.divider ht
  cases h with
  | readFifo hs hk => exact R.readFifo_advances hst hs hk
  | readFifo2 hs hk => exact R.readFifo2_advances hst hs hk
  | outputBit hs he => exact R.outputBit_advances hst hs he
  | clockEdge hs he => exact R.clockEdge_advances hst hs he
  | waitDone hs => exact R.waitDone_advances hs
  | gotDone hs => exact R.gotDone_advances hs

end Step

/-- From the wait for INIT_B the flag comes within the budget. -/
theorem LoadRun.done_of_loading (R : LoadRun d entries) {t : ℕ} (ht : 128 ≤ t)
    (h : Loading entries (R.taken t) (R.regs t)) :
    ∃ u, t < u ∧ u ≤ t + R.left t + 1 ∧ (R.regs u).csrDone = true := by
  refine within_budget (P := fun t => 128 ≤ t ∧ Loading entries (R.taken t) (R.regs t))
    (D := fun u => (R.regs u).csrDone = true) (m := R.left) (fun k ⟨hk, hl⟩ => ?_) ⟨ht, h⟩
  rcases R.advances hk hl with hdone | ⟨hl', hlt⟩
  · exact .inl hdone
  · exact .inr ⟨⟨by omega, hl'⟩, hlt⟩

/-! ## The wait for INIT_B -/

section Wait

variable (R : LoadRun d entries) {c t : ℕ}

theorem LoadRun.extending {j : ℕ} (hj : j ≤ 1000) :
    (R.regs (1 + j)).state = .extendProg ∧ (R.regs (1 + j)).timeoutCounter = BitVec.ofNat 21 (1000 - j) := by
  obtain ⟨hs, hc⟩ := XilinxLoader.extendProg_of_start (R.running 0) R.start R.idle
  exact XilinxLoader.extendProg_dwell (r := R.regs) (n := 1) (loader_succ R.r R.inp)
    (fun t _ => R.running t) hs hc hj

theorem LoadRun.waiting (hfrom : answerFrom ≤ t) (huntil : t ≤ answerUntil)
    (hhigh : ∀ k, answerFrom ≤ k → k < t → (R.inp k).initBSynced = true) :
    (R.regs t).state = .waitInit ∧
      (R.regs t).timeoutCounter = BitVec.ofNat 21 (answerUntil - t) := by
  obtain ⟨hext, hzero⟩ := R.extending (Nat.le_refl 1000)
  obtain ⟨hs, hc⟩ : (R.regs answerFrom).state = .waitInit ∧
      (R.regs answerFrom).timeoutCounter = cInitTimeout := by
    rw [show answerFrom = 1 + 1000 + 1 from rfl, R.regs_succ]
    simp [pMainFsm, (R.running (1 + 1000)).guard, hext, hzero]
  obtain ⟨j, rfl⟩ := Nat.exists_eq_add_of_le hfrom
  have hj : j ≤ 200000 := Nat.le_of_add_le_add_left huntil
  have hdwell := Flags.waitInit_dwell hs hc (fun k hk hk' => ⟨R.running k, hhigh k hk hk'⟩) hj
  rwa [show answerUntil - (answerFrom + j) = 200000 - j from Nat.add_sub_add_left ..]

theorem LoadRun.AnswersAt.waiting (h : R.AnswersAt c) (hfrom : answerFrom ≤ t) (htc : t ≤ c) :
    (R.regs t).state = .waitInit ∧ (R.regs t).timeoutCounter ≠ 0#21 := by
  have huntil := h.inTime.2
  obtain ⟨hs, hc⟩ := R.waiting hfrom (by omega) fun k hk hk' => h.first k hk (by omega)
  obtain ⟨m, hm⟩ : ∃ m, answerUntil - t = m + 1 := ⟨answerUntil - t - 1, by omega⟩
  have hm' : m + 1 ≤ answerUntil := by omega
  rw [hc, hm]
  exact ⟨hs, ofNat_succ_ne_zero (Nat.lt_of_le_of_lt hm' (by decide))⟩

/-- Once INIT_B has answered, `WAIT_INIT2` lasts for as long as it is low. -/
theorem LoadRun.AnswersAt.held (h : R.AnswersAt c) (hct : c < t)
    (hlow : ∀ k, c < k → k < t → (R.inp k).initBSynced = false) : (R.regs t).state = .waitInit2 := by
  induction hct with
  | refl =>
    obtain ⟨hs, hc⟩ := h.waiting R h.inTime.1 (Nat.le_refl c)
    rw [R.regs_succ]
    simp [pMainFsm, (R.running c).guard, hs, hc, h.low]
  | @step t hct ih =>
    have hs := ih fun k hk hk' => hlow k hk (by omega)
    rw [R.regs_succ]
    simp [pMainFsm, (R.running t).guard, hs, hlow t hct (Nat.lt_succ_self t)]

/-- The states up to the release of INIT_B. -/
theorem LoadRun.AnswersAt.before (h : R.AnswersAt c) (hpos : 0 < t)
    (hlow : ∀ k, c < k → k < t → (R.inp k).initBSynced = false) :
    (R.regs t).state = .extendProg ∨ ((R.regs t).state = .waitInit ∧ (R.regs t).timeoutCounter ≠ 0#21) ∨
      (R.regs t).state = .waitInit2 := by
  rcases Nat.lt_or_ge t answerFrom with hfrom | hfrom
  · have hlt : t < 1002 := hfrom
    obtain ⟨hs, -⟩ := R.extending (j := t - 1) (by omega)
    rw [Nat.add_sub_cancel' hpos] at hs
    exact .inl hs
  rcases Nat.lt_or_ge c t with hct | htc
  · exact .inr (.inr (h.held R hct hlow))
  · exact .inr (.inl (h.waiting R hfrom htc))

/-- Up to the release of INIT_B no entry is taken and the flag stays clear. -/
theorem LoadRun.AnswersAt.unreported (h : R.AnswersAt c) (hpos : 0 < t)
    (hlow : ∀ k, c < k → k < t → (R.inp k).initBSynced = false) :
    R.taken t = 0 ∧ Flags.Unreported (R.regs t) := by
  induction hpos with
  | refl =>
    have hs := R.idle
    refine ⟨R.taken_succ (t := 0) (by simp [LoadRun.regs, loader, hs]), ?_⟩
    exact Flags.unreported_step (fun h' => by simp [hs, Flags.InProgress] at h')
      fun hlate => by simp [hs, Flags.LateAnswer] at hlate
  | @step t hpos ih =>
    obtain ⟨htaken, hflags⟩ := ih fun k hk hk' => hlow k hk (by omega)
    have hbefore := h.before R hpos fun k hk hk' => hlow k hk (by omega)
    refine ⟨(R.taken_succ ?_).trans htaken, Flags.unreported_step hflags ?_⟩
    · rcases hbefore with hs | ⟨hs, -⟩ | hs <;> simp [hs]
    · rintro ⟨-, hs', hz, -⟩
      rcases hbefore with hs | ⟨-, hne⟩ | hs
      · exact absurd (hs.symm.trans hs') (by decide)
      · exact hne hz
      · exact absurd (hs.symm.trans hs') (by decide)

theorem LoadRun.AnswersAt.not_done (h : R.AnswersAt c) (hpos : 0 < t)
    (hlow : ∀ k, c < k → k < t → (R.inp k).initBSynced = false) : (R.regs t).csrDone = false := by
  obtain ⟨-, hflags⟩ := h.unreported R hpos hlow
  refine (hflags ?_).1
  rcases h.before R hpos hlow with hs | ⟨hs, -⟩ | hs
  · exact .inr (.inl hs)
  · exact .inr (.inr hs)
  · exact .inl (.inl hs)

/-- With INIT_B high again the loader goes on to the first entry. -/
theorem LoadRun.AnswersAt.readFifo (h : R.AnswersAt c) (hct : c < t)
    (hlow : ∀ k, c < k → k < t → (R.inp k).initBSynced = false) (hhigh : (R.inp t).initBSynced = true) :
    (R.regs (t + 1)).state = .readFifo ∧ R.taken (t + 1) = 0 := by
  have hs := h.held R hct hlow
  obtain ⟨htaken, -⟩ := h.unreported R (by omega) hlow
  refine ⟨?_, (R.taken_succ (by simp [hs])).trans htaken⟩
  rw [R.regs_succ]
  simp [pMainFsm, (R.running t).guard, hs, hhigh]

/-- Without an answer in time the timeout of `WAIT_INIT` sets the flag. -/
theorem LoadRun.done_of_timeout
    (hhigh : ∀ k, answerFrom ≤ k → k < answerUntil → (R.inp k).initBSynced = true) :
    (R.regs (answerUntil + 1)).csrDone = true := by
  obtain ⟨hs, hc⟩ := R.waiting (by decide) (Nat.le_refl answerUntil) hhigh
  rw [Nat.sub_self] at hc
  rw [R.regs_succ]
  cases hb : (R.inp answerUntil).initBSynced <;>
    simp [pMainFsm, (R.running answerUntil).guard, hs, hc, hb]

end Wait

/-! ## The bound -/

/-- The cycles from the START to the flag, less those in which INIT_B is held low. -/
def loadCycles (d : BitVec 7) (entries : List FifoEntry) : ℕ :=
  answerUntil + entries.length * entryCycles d + cDoneTimeout.toNat + 2

theorem LoadRun.done_of_answer (R : LoadRun d entries) {c m : ℕ} (hc : R.AnswersAt c) (hcm : c < m)
    (hlow : ∀ k, c < k → k < m → (R.inp k).initBSynced = false) (hhigh : (R.inp m).initBSynced = true) :
    ∃ u, 0 < u ∧ u ≤ m + entries.length * entryCycles d + cDoneTimeout.toNat + 2 ∧
      (R.regs u).csrDone = true := by
  obtain ⟨hs, htaken⟩ := hc.readFifo R hcm hlow hhigh
  obtain ⟨e, hlast, -⟩ := R.marked
  have hpos := List.length_pos_of_mem (List.mem_of_getLast? hlast)
  have hfrom : 1002 ≤ c := hc.inTime.1
  obtain ⟨u, hmu, hu, hdone⟩ := R.done_of_loading (t := m + 1) (by omega) (.readFifo hs (by omega))
  have hleft : R.left (m + 1) = entries.length * entryCycles d + cDoneTimeout.toNat := by
    simp only [LoadRun.left, budget, hs, htaken, Nat.sub_zero]
  exact ⟨u, by omega, by omega, hdone⟩

/-- INIT_B high again within `w` cycles bounds the configuration. -/
theorem LoadRun.done_of_released (R : LoadRun d entries) {w : ℕ} (h : R.ReleasedWithin w) :
    R.DoneWithin (loadCycles d entries + w) := by
  by_cases hans : ∃ c, answerFrom ≤ c ∧ c < answerUntil ∧ (R.inp c).initBSynced = false
  swap
  · have hhigh : ∀ k, answerFrom ≤ k → k < answerUntil → (R.inp k).initBSynced = true := by
      intro k hk hk'
      by_contra hb
      exact hans ⟨k, hk, hk', by simpa using hb⟩
    exact ⟨answerUntil + 1, Nat.succ_pos _, by unfold loadCycles; omega, R.done_of_timeout hhigh⟩
  obtain ⟨k, hfrom, huntil, hb⟩ := hans
  obtain ⟨c, hc, hck, hlow, hfirst⟩ := exists_first (P := fun k => (R.inp k).initBSynced = false) hfrom hb
  have hans : R.AnswersAt c := ⟨⟨hc, by omega⟩, hlow, fun k hk hk' => by simpa using hfirst k hk hk'⟩
  obtain ⟨n, hcn, hnw, hb'⟩ := h c hans
  obtain ⟨m, hcm, hmn, hhigh, hheld⟩ := exists_first (P := fun k => (R.inp k).initBSynced = true) hcn hb'
  obtain ⟨u, hpos, hu, hdone⟩ :=
    R.done_of_answer hans hcm (fun k hk hk' => by simpa using hheld k hk hk') hhigh
  exact ⟨u, hpos, by unfold loadCycles; omega, hdone⟩

/-- A flag within `n` cycles needs INIT_B high again within them. -/
theorem LoadRun.released_of_done (R : LoadRun d entries) {n : ℕ} (h : R.DoneWithin n) :
    R.ReleasedWithin n := by
  obtain ⟨t, hpos, htn, hdone⟩ := h
  intro c hc
  by_contra hnot
  have hlow : ∀ k, c < k → k < t → (R.inp k).initBSynced = false := by
    intro k hk hk'
    by_contra hb
    exact hnot ⟨k, hk, by omega, by simpa using hb⟩
  rw [hc.not_done R hpos hlow] at hdone
  exact absurd hdone (by decide)

/-- A configuration ends in bounded time, in all of a family of runs, exactly if INIT_B is
released in bounded time in all of them; what else the two pins do adds nothing. -/
theorem done_bounded_iff {κ : Type} (runs : κ → LoadRun d entries) :
    ((∃ n, ∀ k, (runs k).DoneWithin n) ↔ ∃ w, ∀ k, (runs k).ReleasedWithin w) ∧
      ∀ k w, (runs k).ReleasedWithin w → (runs k).DoneWithin (loadCycles d entries + w) := by
  refine ⟨⟨?_, ?_⟩, fun k w h => (runs k).done_of_released h⟩
  · rintro ⟨n, h⟩
    exact ⟨n, fun k => (runs k).released_of_done (h k)⟩
  · rintro ⟨w, h⟩
    exact ⟨loadCycles d entries + w, fun k => (runs k).done_of_released (h k)⟩

/-- A START with one entry in the FIFO, and INIT_B as given. -/
def oneEntry (initB : ℕ → Bool) (t : ℕ) : In :=
  { (default : In) with rstN := true, csrStart := decide (t = 0), csrDlast := true, initBSynced := initB t }

def oneEntryRun (initB : ℕ → Bool) : LoadRun 0#7 [⟨0#2, true, 0#32⟩] where
  r := default
  inp := oneEntry initB
  idle := rfl
  start := rfl
  running _ := ⟨rfl, rfl⟩
  divider _ := rfl
  supplied _ _ _ := rfl
  shown t e _ he := by
    obtain rfl : e = ⟨0#2, true, 0#32⟩ := by simpa using List.mem_of_getElem? he
    exact ⟨rfl, rfl, rfl⟩
  marked := ⟨_, rfl, rfl⟩

/-- INIT_B stuck low: `WAIT_INIT2` is never left. -/
theorem stuck_low_unbounded :
    ¬ ∀ (d : BitVec 7) (entries : List FifoEntry), ∃ n, ∀ R : LoadRun d entries, R.DoneWithin n := by
  intro hall
  obtain ⟨n, h⟩ := hall 0#7 [⟨0#2, true, 0#32⟩]
  have hans : (oneEntryRun fun _ => false).AnswersAt answerFrom :=
    ⟨⟨Nat.le_refl _, by decide⟩, rfl, fun k hk hk' => absurd hk (by omega)⟩
  obtain ⟨m, -, -, hhigh⟩ := (oneEntryRun fun _ => false).released_of_done (h _) answerFrom hans
  exact absurd hhigh Bool.false_ne_true

end Svec.Loader.Bounded
