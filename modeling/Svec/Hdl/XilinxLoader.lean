/-
  Hdl/XilinxLoader.lean --- the slave-serial bitstream loader, `xilinx_loader.vhd`.

  One definition per process of the architecture, with the registers it drives.
  `gc_sync_ffs` is not part of this repository: the two synchronised pins enter
  here as `initBSynced` and `doneSynced`, and the components that produce them
  are chosen where the loader is instantiated.

  VHDL reads every signal of a clocked process before the edge and lets the last
  assignment win; where a state assigns twice, the branches below are in source
  order so that the same one wins.
-/
import Svec.Data.Bits

set_option autoImplicit false

namespace Svec.Hdl.XilinxLoader

open Svec.Data

/-- `t_xloader_state`. -/
inductive State where
  | idle | waitInit | waitInit2 | readFifo | readFifo2 | outputBit | clockEdge
  | waitDone | extendProg | startupCclk0 | startupCclk1 | gotDone
  deriving DecidableEq, Repr, Inhabited

/-- PROG_B assertion duration. -/
def cMinProgDelay : BitVec 21 := 1000#21

/-- PROG_B active to INIT_B active timeout. -/
def cInitTimeout : BitVec 21 := 200000#21

/-- Last word written to DONE active timeout. -/
def cDoneTimeout : BitVec 21 := 200000#21

/-- Number of CCLK cycles after assertion of DONE required to start up the FPGA. -/
def cStartupCycles : BitVec 21 := 1024#21

/-- The signals the two clocked processes drive, output registers included. -/
structure Regs where
  state : State
  clkDiv : BitVec 7
  tick : Bool
  timeoutCounter : BitVec 21
  dData : Word
  dSize : BitVec 2
  dLast : Bool
  bitCounter : BitVec 5
  startupCount : BitVec 21
  csrError : Bool
  csrDone : Bool
  xlxCclk : Bool
  xlxDin : Bool
  xlxProgramB : Bool
  deriving DecidableEq, Repr, Inhabited

/-- The input ports, the two configuration pins after their synchronisers. -/
structure In where
  rstN : Bool
  csrSwrst : Bool
  csrStart : Bool
  csrClkDiv : BitVec 7
  csrData : Word
  csrDsize : BitVec 2
  csrMsbf : Bool
  csrDlast : Bool
  csrEmpty : Bool
  csrStartup : Bool
  initBSynced : Bool
  doneSynced : Bool
  deriving Repr, Inhabited

/-- `p_divide_clock`: the divider counter and its one-cycle tick. -/
def pDivideClock (r : Regs) (i : In) : BitVec 7 × Bool :=
  if !i.rstN then (0#7, false)
  else if r.clkDiv = i.csrClkDiv then (0#7, true)
  else (r.clkDiv + 1#7, false)

/-- `csr_data_i` as `READ_FIFO2` stores it: byte-swapped for a little-endian source. -/
def orderedData (i : In) : Word :=
  if i.csrMsbf then i.csrData else byteSwap i.csrData

/-- `p_main_fsm`. -/
def pMainFsm (r : Regs) (i : In) : Regs :=
  if !i.rstN || i.csrSwrst then
    { r with
      state := .idle, xlxProgramB := true, xlxCclk := false, xlxDin := false
      timeoutCounter := 0#21, csrDone := false, csrError := false }
  else match r.state with
  | .idle =>
    if i.csrStart then
      { r with
        xlxProgramB := false, csrDone := false, csrError := false
        state := .extendProg, timeoutCounter := cMinProgDelay }
    else
      { r with
        timeoutCounter := cInitTimeout
        xlxProgramB := true, xlxCclk := false, xlxDin := false }
  | .extendProg =>
    if r.timeoutCounter = 0#21 then
      { r with timeoutCounter := cInitTimeout, state := .waitInit }
    else
      { r with timeoutCounter := r.timeoutCounter - 1#21 }
  | .waitInit =>
    let r' := { r with timeoutCounter := r.timeoutCounter - 1#21 }
    let r' := if r.timeoutCounter = 0#21 then
        { r' with csrDone := true, csrError := true, state := .idle } else r'
    -- INIT_B low in the cycle the timeout expires wins the state, not the flags.
    if !i.initBSynced then { r' with state := .waitInit2, xlxProgramB := true } else r'
  | .waitInit2 =>
    if i.initBSynced then { r with state := .readFifo } else r
  | .readFifo =>
    { r with
      xlxCclk := false
      state := if i.csrEmpty then .readFifo else .readFifo2 }
  | .readFifo2 =>
    let r' := { r with dData := orderedData i, dSize := i.csrDsize, dLast := i.csrDlast }
    if r.tick then
      { r' with state := .outputBit, bitCounter := i.csrDsize ++ 7#3 }
    else r'
  | .outputBit =>
    if r.tick then
      { r with
        xlxDin := r.dData.msb, xlxCclk := false, dData := shiftUp r.dData
        state := if i.doneSynced then .gotDone else .clockEdge }
    else r
  | .clockEdge =>
    if r.tick then
      let r' := { r with xlxCclk := true, bitCounter := r.bitCounter - 1#5 }
      if r.bitCounter = 0#5 then
        if r.dLast then { r' with state := .waitDone, timeoutCounter := cDoneTimeout }
        else { r' with state := .readFifo }
      else { r' with state := .outputBit }
    else r
  | .waitDone =>
    let r' := if i.doneSynced then
        { r with state := .idle, csrDone := true, csrError := false } else r
    let r' := { r' with timeoutCounter := r.timeoutCounter - 1#21 }
    if r.timeoutCounter = 0#21 then
      { r' with state := .idle, csrDone := true, csrError := true }
    else r'
  | .gotDone =>
    let r' := { r with csrDone := true, csrError := false }
    if i.csrStartup then { r' with state := .startupCclk0, startupCount := 0#21 } else r'
  | .startupCclk0 =>
    let r' := { r with xlxDin := false }
    if r.tick then { r' with xlxCclk := false, state := .startupCclk1 } else r'
  | .startupCclk1 =>
    if r.tick then
      { r with
        xlxCclk := true
        state := if r.startupCount = cStartupCycles then .idle else .startupCclk0
        startupCount := r.startupCount + 1#21 }
    else r

/-- One rising edge of `clk_sys_i`: the two processes drive disjoint registers. -/
def step (r : Regs) (i : In) : Regs :=
  { pMainFsm r i with clkDiv := (pDivideClock r i).1, tick := (pDivideClock r i).2 }

/-- `csr_rd_o`: a pending entry is read in `IDLE` and in `READ_FIFO`. -/
def csrRd (r : Regs) (csrEmpty : Bool) : Bool :=
  !csrEmpty && (r.state = .idle || r.state = .readFifo)

/-- `csr_busy_o`. -/
def csrBusy (r : Regs) : Bool := r.state ≠ .idle

/-! ## What one step does, register by register -/

@[simp] theorem step_clkDiv (r : Regs) (i : In) : (step r i).clkDiv = (pDivideClock r i).1 := rfl
@[simp] theorem step_tick (r : Regs) (i : In) : (step r i).tick = (pDivideClock r i).2 := rfl
@[simp] theorem step_state (r : Regs) (i : In) : (step r i).state = (pMainFsm r i).state := rfl
@[simp] theorem step_timeoutCounter (r : Regs) (i : In) :
    (step r i).timeoutCounter = (pMainFsm r i).timeoutCounter := rfl
@[simp] theorem step_dData (r : Regs) (i : In) : (step r i).dData = (pMainFsm r i).dData := rfl
@[simp] theorem step_dLast (r : Regs) (i : In) : (step r i).dLast = (pMainFsm r i).dLast := rfl
@[simp] theorem step_bitCounter (r : Regs) (i : In) :
    (step r i).bitCounter = (pMainFsm r i).bitCounter := rfl
@[simp] theorem step_csrDone (r : Regs) (i : In) :
    (step r i).csrDone = (pMainFsm r i).csrDone := rfl
@[simp] theorem step_csrError (r : Regs) (i : In) :
    (step r i).csrError = (pMainFsm r i).csrError := rfl
@[simp] theorem step_xlxCclk (r : Regs) (i : In) :
    (step r i).xlxCclk = (pMainFsm r i).xlxCclk := rfl
@[simp] theorem step_xlxDin (r : Regs) (i : In) : (step r i).xlxDin = (pMainFsm r i).xlxDin := rfl
@[simp] theorem step_xlxProgramB (r : Regs) (i : In) :
    (step r i).xlxProgramB = (pMainFsm r i).xlxProgramB := rfl

/-- The FSM runs: neither reset is asserted. -/
def In.Running (i : In) : Prop := i.rstN = true ∧ i.csrSwrst = false

theorem In.Running.guard {i : In} (h : i.Running) : (!i.rstN || i.csrSwrst) = false := by
  simp [h.1, h.2]

theorem In.Running.not_reset {i : In} (h : i.Running) : ¬ (!i.rstN || i.csrSwrst) = true :=
  Bool.eq_false_iff.mp h.guard

/-! ## Transitions that the callers rely on -/

/-- SWRST sends the loader to `IDLE` from everywhere. -/
theorem idle_of_swrst {r : Regs} {i : In} (h : i.csrSwrst = true) : (pMainFsm r i).state = .idle := by
  simp [pMainFsm, h]

theorem idle_step {r : Regs} {i : In} (hrun : i.Running) (hstart : i.csrStart = false)
    (hs : r.state = .idle) : (step r i).state = .idle := by
  simp [pMainFsm, hrun.guard, hs, hstart]

theorem extendProg_of_start {r : Regs} {i : In} (hrun : i.Running) (hstart : i.csrStart = true)
    (hs : r.state = .idle) :
    (step r i).state = .extendProg ∧ (step r i).timeoutCounter = cMinProgDelay := by
  simp [pMainFsm, hrun.guard, hs, hstart]

/-- `READ_FIFO2` waits for the tick. -/
theorem readFifo2_wait {r : Regs} {i : In} (hrun : i.Running) (hs : r.state = .readFifo2)
    (ht : r.tick = false) : (step r i).state = .readFifo2 := by
  simp [pMainFsm, hrun.guard, hs, ht]

theorem outputBit_of_tick {r : Regs} {i : In} (hrun : i.Running) (hs : r.state = .readFifo2)
    (ht : r.tick = true) : (step r i).state = .outputBit := by
  simp [pMainFsm, hrun.guard, hs, ht]

theorem readFifo2_of_entry {r : Regs} {i : In} (hrun : i.Running) (hs : r.state = .readFifo)
    (he : i.csrEmpty = false) : (step r i).state = .readFifo2 := by
  simp [pMainFsm, hrun.guard, hs, he]

/-- PROG_B is held low for `c_MIN_PROG_DELAY + 1` cycles; then the loader follows INIT_B
low and high again into `READ_FIFO`. -/
theorem extendProg_dwell {r : ℕ → Regs} {i : ℕ → In} {n : ℕ}
    (hrun : ∀ t, r (t + 1) = step (r t) (i t)) (hok : ∀ t, n ≤ t → (i t).Running)
    (hs : (r n).state = .extendProg) (hc : (r n).timeoutCounter = cMinProgDelay) {j : ℕ}
    (hj : j ≤ 1000) :
    (r (n + j)).state = .extendProg ∧ (r (n + j)).timeoutCounter = BitVec.ofNat 21 (1000 - j) := by
  induction j with
  | zero => exact ⟨hs, hc⟩
  | succ j ih =>
    obtain ⟨hsj, hcj⟩ := ih (by omega)
    obtain ⟨m, hm, hm'⟩ : ∃ m, 1000 - j = m + 1 ∧ 1000 - (j + 1) = m := ⟨1000 - (j + 1), by omega, rfl⟩
    rw [hm] at hcj
    have hne := ofNat_succ_ne_zero (w := 21) (n := m) (by omega)
    rw [← Nat.add_assoc, hrun, hm']
    simp [pMainFsm, (hok (n + j) (by omega)).guard, hsj, hcj, hne, ofNat_succ_sub_one]

theorem init_handshake {r : ℕ → Regs} {i : ℕ → In} {n : ℕ}
    (hrun : ∀ t, r (t + 1) = step (r t) (i t)) (hok : ∀ t, n ≤ t → (i t).Running)
    (hs : (r n).state = .extendProg) (hc : (r n).timeoutCounter = cMinProgDelay)
    (hlow : (i (n + 1001)).initBSynced = false) (hhigh : (i (n + 1002)).initBSynced = true) :
    (r (n + 1001)).state = .waitInit ∧ (r (n + 1002)).state = .waitInit2 ∧
      (r (n + 1003)).state = .readFifo := by
  obtain ⟨hs0, hc0⟩ := extendProg_dwell hrun hok hs hc (Nat.le_refl 1000)
  have h1 : (r (n + 1001)).state = .waitInit := by
    rw [show n + 1001 = n + 1000 + 1 by omega, hrun]
    simp [pMainFsm, (hok (n + 1000) (by omega)).guard, hs0, hc0]
  have h2 : (r (n + 1002)).state = .waitInit2 := by
    rw [show n + 1002 = n + 1001 + 1 by omega, hrun]
    simp [pMainFsm, (hok (n + 1001) (by omega)).guard, h1, hlow]
  refine ⟨h1, h2, ?_⟩
  rw [show n + 1003 = n + 1002 + 1 by omega, hrun]
  simp [pMainFsm, (hok (n + 1002) (by omega)).guard, h2, hhigh]

/-- In `CLOCK_EDGE` DIN holds the bit that the edge samples. -/
theorem din_holds_clockEdge {r : Regs} {i : In} (hrun : i.Running) (hs : r.state = .clockEdge) :
    (step r i).xlxDin = r.xlxDin := by
  rw [step_xlxDin]
  unfold pMainFsm
  rw [hrun.guard, hs]
  simp only [Bool.false_eq_true, if_false]
  split
  · (repeat' split) <;> rfl
  · rfl

/-- The divider wraps: whatever it counts from, a tick comes within 128 cycles. -/
theorem tick_recurs {r : ℕ → Regs} {i : ℕ → In} {d : BitVec 7}
    (hrun : ∀ t, r (t + 1) = step (r t) (i t)) (hrst : ∀ t, (i t).rstN = true)
    (hdiv : ∀ t, (i t).csrClkDiv = d) (t : ℕ) :
    ∃ u, t < u ∧ u ≤ t + 128 ∧ (r u).tick = true := by
  obtain ⟨n, hn⟩ : ∃ n, n = (d - (r t).clkDiv).toNat := ⟨_, rfl⟩
  have hlt : n < 128 := hn ▸ (d - (r t).clkDiv).isLt
  -- Until the counter meets the divider value it counts up from where it was.
  have hcount : ∀ m, m ≤ n → (r (t + m)).clkDiv = (r t).clkDiv + BitVec.ofNat 7 m := by
    intro m
    induction m with
    | zero => intro _; simp
    | succ m ih =>
      intro hm
      have hprev := ih (by omega)
      have hne : (r (t + m)).clkDiv ≠ d := by
        intro heq
        have hm' : (d - (r t).clkDiv).toNat = m := by
          rw [← heq, hprev, BitVec.add_comm, BitVec.add_sub_cancel, BitVec.toNat_ofNat]
          exact Nat.mod_eq_of_lt (by omega)
        omega
      rw [← Nat.add_assoc, hrun, step_clkDiv, pDivideClock, hrst, hdiv]
      simp only [Bool.not_true, Bool.false_eq_true, if_false, hne]
      rw [hprev, BitVec.add_assoc, BitVec.ofNat_add]
  refine ⟨t + n + 1, by omega, by omega, ?_⟩
  have hmeet : (r (t + n)).clkDiv = d := by
    rw [hcount n (Nat.le_refl n), hn, BitVec.ofNat_toNat, BitVec.setWidth_eq, BitVec.add_comm,
      BitVec.sub_add_cancel]
  rw [hrun, step_tick, pDivideClock, hrst, hdiv, hmeet]
  simp

end Svec.Hdl.XilinxLoader
