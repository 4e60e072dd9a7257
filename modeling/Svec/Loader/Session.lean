/-
  Loader/Session.lean --- one programming session after another.

  A session begins with SWRST and, some cycles later, START.  What an earlier
  session left in the FIFO is discarded in `IDLE` only, one entry a cycle, so
  whether the new session starts clean is a race between the number of cycles to
  START and the number of entries left.

  The loader and the FIFO are wired here as the host source selects them in
  `sfpga_bootloader.vhd`.  Each entry carries the number of cycles of the run up to
  its push, so that old entries can be told from new ones.
-/
import Mathlib.Data.Nat.Find
import Svec.Sync.Machine
import Svec.Hdl.Fifo
import Svec.Hdl.XilinxLoader
import Svec.Loader.Moves

set_option autoImplicit false

namespace Svec.Loader.Session

open Svec.Sync Svec.Hdl
open Svec.Hdl.XilinxLoader (Regs In State csrRd pMainFsm)

/-- A FIFO entry and the number of cycles up to its push; what was there before the run
began has 0. -/
abbrev Stamped := FifoEntry × ℕ

/-- `sxldr_fifo_INST` and `U_Xilinx_Loader`. -/
structure HostPath (F : FifoSync Stamped 256) where
  ldr : Regs
  fifo : F.State

/-- What the register block and the pins supply in a cycle. -/
structure HostIn where
  rstN : Bool
  csrSwrst : Bool
  csrStart : Bool
  csrMsbf : Bool
  csrExit : Bool
  csrClkdiv : BitVec 6
  fifoClearBus : Bool
  fifoPush : Option FifoEntry
  initBSynced : Bool
  doneSynced : Bool
  deriving Repr, Inhabited

variable {F : FifoSync Stamped 256}

/-- `from_host_ldr`, with `boot_en_i` high. -/
def HostPath.loaderIn (s : HostPath F) (i : HostIn) : In where
  rstN := i.rstN
  csrSwrst := i.csrSwrst
  csrStart := i.csrStart
  csrClkDiv := 0#1 ++ i.csrClkdiv
  csrData := (F.rdData s.fifo).1.xdata
  csrDsize := (F.rdData s.fifo).1.xsize
  csrMsbf := i.csrMsbf
  csrDlast := (F.rdData s.fifo).1.xlast
  csrEmpty := F.rdEmpty s.fifo
  csrStartup := i.csrExit
  initBSynced := i.initBSynced
  doneSynced := i.doneSynced

/-- `csr_rd_o`, routed back to the FIFO. -/
def HostPath.rd (s : HostPath F) : Bool := csrRd s.ldr (F.rdEmpty s.fifo)

/-- One clock cycle; `i.1` is the number of cycles before it. -/
def HostPath.step (s : HostPath F) (i : ℕ × HostIn) : HostPath F where
  ldr := XilinxLoader.step s.ldr (s.loaderIn i.2)
  fifo := F.step s.fifo
    { rstN := i.2.rstN && !i.2.fifoClearBus, rdReq := s.rd,
      wrReq := i.2.fifoPush.isSome, wrData := (i.2.fifoPush.getD default, i.1 + 1) }

/-- The loader and the FIFO at every cycle. -/
def trace (s₀ : HostPath F) (inp : ℕ → HostIn) : ℕ → HostPath F :=
  run HostPath.step s₀ fun t => (t, inp t)

/-- The entry that the loader moves from the FIFO's read port into its shift register in
cycle `u`. -/
def ShiftsOut (s₀ : HostPath F) (inp : ℕ → HostIn) (u : ℕ) (e : Stamped) : Prop :=
  (trace s₀ inp u).ldr.state = .readFifo2 ∧ (trace s₀ inp (u + 1)).ldr.state = .outputBit ∧
    F.rdData (trace s₀ inp u).fifo = e

/-- Every entry shifted out after cycle `n` was pushed after cycle `n`. -/
def Isolated (s₀ : HostPath F) (inp : ℕ → HostIn) (n : ℕ) : Prop :=
  ∀ u e, n < u → ShiftsOut s₀ inp u e → n + 1 < e.2

/-- The host's reset sequence: SWRST in cycle `T`, START `k` cycles later, neither of them
in between, nothing pushed or cleared meanwhile. -/
structure ResetSequence (inp : ℕ → HostIn) (T k : ℕ) : Prop where
  swrst : (inp T).csrSwrst = true
  start : (inp (T + k)).csrStart = true
  noSwrst : ∀ t, T < t → t ≤ T + k → (inp t).csrSwrst = false
  noStart : ∀ t, T < t → t < T + k → (inp t).csrStart = false
  noPush : ∀ t, T ≤ t → t ≤ T + k → (inp t).fifoPush = none
  noClear : ∀ t, T ≤ t → t ≤ T + k → (inp t).fifoClearBus = false
  noReset : ∀ t, T ≤ t → t ≤ T + k → (inp t).rstN = true

/-- `inp` continues `hist` after cycle `n`, without CLEAR_BUS (no host program writes it). -/
structure Continues (hist inp : ℕ → HostIn) (n : ℕ) : Prop where
  same : ∀ t, t ≤ n → inp t = hist t
  noClear : ∀ t, n < t → (inp t).fifoClearBus = false

/-! ## The FIFO's contents -/

section Contents

variable {s : HostPath F} {i : ℕ × HostIn}

theorem contents_step (hr : i.2.rstN = true) (hc : i.2.fifoClearBus = false)
    (hp : i.2.fifoPush = none) :
    F.contents (s.step i).fifo = if s.rd then (F.contents s.fifo).tail else F.contents s.fifo := by
  unfold HostPath.step
  rw [F.contents_step _ _ (by simp [hr, hc])]
  simp [hp]

/-- An entry of the next cycle is an entry of this one or is pushed in it. -/
theorem mem_contents_step {e : Stamped} (he : e ∈ F.contents (s.step i).fifo) :
    e ∈ F.contents s.fifo ∨ e.2 = i.1 + 1 := by
  unfold HostPath.step at he
  cases hr : (i.2.rstN && !i.2.fifoClearBus) with
  | false =>
    rw [F.contents_clear _ _ hr] at he
    exact absurd he (List.not_mem_nil)
  | true =>
    rw [F.contents_step _ _ hr] at he
    rcases List.mem_append.mp he with hold | hnew
    · left
      split at hold
      · exact List.mem_of_mem_tail hold
      · exact hold
    · right
      split at hnew
      · rw [List.mem_singleton.mp hnew]
      · exact absurd hnew (List.not_mem_nil)

/-- A reading cycle takes the oldest entry to the read port. -/
theorem rdData_step {e : Stamped} {q : List Stamped} (hr : i.2.rstN = true)
    (hc : i.2.fifoClearBus = false) (hrd : s.rd = true) (hq : F.contents s.fifo = e :: q) :
    F.rdData (s.step i).fifo = e :=
  F.rdData_read _ _ e q (by simp [hr, hc]) hrd hq

theorem rd_iff : s.rd = true ↔
    F.contents s.fifo ≠ [] ∧ (s.ldr.state = .idle ∨ s.ldr.state = .readFifo) := by
  unfold HostPath.rd csrRd
  rw [F.rdEmpty_eq]
  cases F.contents s.fifo <;> simp

theorem rd_false (h : s.ldr.state ≠ .idle) (h' : s.ldr.state ≠ .readFifo) : s.rd = false := by
  cases hrd : s.rd with
  | false => rfl
  | true =>
    rcases (rd_iff.mp hrd).2 with hs | hs
    · exact absurd hs h
    · exact absurd hs h'

end Contents

section Trace

variable {s₀ : HostPath F} {inp : ℕ → HostIn}

theorem trace_succ (t : ℕ) : trace s₀ inp (t + 1) = (trace s₀ inp t).step (t, inp t) := rfl

/-- No entry is stamped with a cycle still to come. -/
theorem stamp_le (h₀ : ∀ e ∈ F.contents s₀.fifo, e.2 = 0) (t : ℕ) :
    ∀ e ∈ F.contents (trace s₀ inp t).fifo, e.2 ≤ t := by
  induction t with
  | zero => intro e he; exact Nat.le_of_eq (h₀ e he)
  | succ t ih =>
    intro e he
    rw [trace_succ] at he
    rcases mem_contents_step he with hold | hnew
    · exact Nat.le_succ_of_le (ih e hold)
    · exact Nat.le_of_eq hnew

theorem trace_congr {hist : ℕ → HostIn} {n : ℕ} (h : ∀ t, t ≤ n → inp t = hist t) :
    trace s₀ inp (n + 1) = trace s₀ hist (n + 1) :=
  run_congr fun t ht => by rw [h t (Nat.le_of_lt_succ ht)]

/-- `READ_FIFO2` is entered by taking an entry, and its entry stays on the read port. -/
theorem readFifo2_step {t : ℕ} (hc : (inp t).fifoClearBus = false)
    (h : (trace s₀ inp (t + 1)).ldr.state = .readFifo2) :
    (∃ q, F.contents (trace s₀ inp t).fifo = F.rdData (trace s₀ inp (t + 1)).fifo :: q) ∨
      ((trace s₀ inp t).ldr.state = .readFifo2 ∧
        F.rdData (trace s₀ inp (t + 1)).fifo = F.rdData (trace s₀ inp t).fifo) := by
  rw [trace_succ] at h ⊢
  generalize trace s₀ inp t = s at h ⊢
  have hstate : (pMainFsm s.ldr (s.loaderIn (inp t))).state = .readFifo2 := h
  obtain ⟨hrun, hfrom⟩ := readFifo2_entry hstate
  rcases hfrom with ⟨hs, hne⟩ | ⟨hs, -⟩
  · left
    have hempty : F.rdEmpty s.fifo = false := hne
    rw [F.rdEmpty_eq] at hempty
    obtain ⟨e, q, hq⟩ : ∃ e q, F.contents s.fifo = e :: q := by
      cases hq : F.contents s.fifo with
      | nil => simp [hq] at hempty
      | cons e q => exact ⟨e, q, rfl⟩
    have hrd : s.rd = true := rd_iff.mpr ⟨by simp [hq], Or.inr hs⟩
    exact ⟨q, by rw [rdData_step hrun.1 hc hrd hq]; exact hq⟩
  · right
    refine ⟨hs, F.rdData_hold _ _ ?_⟩
    exact rd_false (by simp [hs]) (by simp [hs])

/-! ## A session that starts clean -/

/-- With nothing old in the FIFO, nothing old is ever shifted out. -/
theorem isolated_of_empty {n : ℕ} (hc : ∀ t, n < t → (inp t).fifoClearBus = false)
    (hs : (trace s₀ inp (n + 1)).ldr.state ≠ .readFifo2)
    (hempty : F.contents (trace s₀ inp (n + 1)).fifo = []) : Isolated s₀ inp n := by
  have hinv : ∀ m, (∀ e ∈ F.contents (trace s₀ inp (n + 1 + m)).fifo, n + 1 < e.2) ∧
      ((trace s₀ inp (n + 1 + m)).ldr.state = .readFifo2 →
        n + 1 < (F.rdData (trace s₀ inp (n + 1 + m)).fifo).2) := by
    intro m
    induction m with
    | zero => exact ⟨by simp [hempty], fun h => absurd h hs⟩
    | succ m ih =>
      obtain ⟨hnew, hport⟩ := ih
      rw [← Nat.add_assoc]
      refine ⟨fun e he => ?_, fun h => ?_⟩
      · rw [trace_succ] at he
        rcases mem_contents_step he with hold | hpush
        · exact hnew e hold
        · rw [hpush]
          show n + 1 < n + 1 + m + 1
          omega
      · rcases readFifo2_step (hc _ (by omega)) h with ⟨q, hq⟩ | ⟨hsame, hport'⟩
        · exact hnew _ (hq ▸ List.mem_cons_self ..)
        · rw [hport']
          exact hport hsame
  intro u e hu hshift
  obtain ⟨m, rfl⟩ : ∃ m, u = n + 1 + m := ⟨u - (n + 1), by omega⟩
  exact hshift.2.2 ▸ (hinv m).2 hshift.1

/-! ## From SWRST to START -/

/-- The entries that are read in the cycle of SWRST itself. -/
def popAtSwrst (s : HostPath F) : ℕ :=
  if s.ldr.state = .idle ∨ s.ldr.state = .readFifo then 1 else 0

theorem contents_drop {s : HostPath F} {i : ℕ × HostIn} (hr : i.2.rstN = true)
    (hc : i.2.fifoClearBus = false) (hp : i.2.fifoPush = none) :
    F.contents (s.step i).fifo = (F.contents s.fifo).drop (popAtSwrst s) := by
  rw [contents_step hr hc hp]
  by_cases hs : s.ldr.state = .idle ∨ s.ldr.state = .readFifo
  · rw [popAtSwrst, if_pos hs, List.drop_one]
    cases hq : F.contents s.fifo with
    | nil => simp
    | cons e q => rw [rd_iff.mpr ⟨by simp [hq], hs⟩, if_pos rfl]
  · have hrd : s.rd = false := rd_false (fun h => hs (Or.inl h)) (fun h => hs (Or.inr h))
    rw [hrd, popAtSwrst, if_neg hs]
    simp

/-- One entry goes in every cycle that the loader spends in `IDLE`. -/
theorem idle_until_start (s₀ : HostPath F) {T k : ℕ} (hseq : ResetSequence inp T k) {j : ℕ} (hj : j < k) :
    (trace s₀ inp (T + 1 + j)).ldr.state = .idle ∧
      F.contents (trace s₀ inp (T + 1 + j)).fifo =
        (F.contents (trace s₀ inp T).fifo).drop (popAtSwrst (trace s₀ inp T) + j) := by
  induction j with
  | zero =>
    have hsw := hseq.swrst
    refine ⟨?_, contents_drop (hseq.noReset T (by omega) (by omega))
      (hseq.noClear T (by omega) (by omega)) (hseq.noPush T (by omega) (by omega))⟩
    show (pMainFsm (trace s₀ inp T).ldr ((trace s₀ inp T).loaderIn (inp T))).state = .idle
    exact XilinxLoader.idle_of_swrst hsw
  | succ j ih =>
    obtain ⟨hidle, hcont⟩ := ih (by omega)
    rw [← Nat.add_assoc, trace_succ]
    constructor
    · exact XilinxLoader.idle_step ⟨hseq.noReset _ (by omega) (by omega),
        hseq.noSwrst _ (by omega) (by omega)⟩ (hseq.noStart _ (by omega) (by omega)) hidle
    · rw [contents_drop (hseq.noReset _ (by omega) (by omega))
        (hseq.noClear _ (by omega) (by omega)) (hseq.noPush _ (by omega) (by omega)), hcont,
        popAtSwrst, hidle, List.drop_drop]
      simp [Nat.add_assoc]

/-- What is left in the cycle after START. -/
theorem after_start (s₀ : HostPath F) {T k : ℕ} (hk : 1 ≤ k) (hseq : ResetSequence inp T k) :
    (trace s₀ inp (T + k + 1)).ldr.state = .extendProg ∧
      (trace s₀ inp (T + k + 1)).ldr.timeoutCounter = XilinxLoader.cMinProgDelay ∧
      F.contents (trace s₀ inp (T + k + 1)).fifo =
        (F.contents (trace s₀ inp T).fifo).drop (popAtSwrst (trace s₀ inp T) + k) := by
  obtain ⟨hidle, hcont⟩ := idle_until_start s₀ hseq (j := k - 1) (by omega)
  rw [show T + 1 + (k - 1) = T + k by omega] at hidle hcont
  have hrun : ((trace s₀ inp (T + k)).loaderIn (inp (T + k))).Running :=
    ⟨hseq.noReset _ (by omega) (by omega), hseq.noSwrst _ (by omega) (by omega)⟩
  obtain ⟨hext, hcnt⟩ := XilinxLoader.extendProg_of_start hrun hseq.start hidle
  refine ⟨hext, hcnt, ?_⟩
  rw [trace_succ, contents_drop (hseq.noReset _ (by omega) (by omega))
    (hseq.noClear _ (by omega) (by omega)) (hseq.noPush _ (by omega) (by omega)), hcont, popAtSwrst,
    hidle, List.drop_drop]
  congr 1
  simp
  omega

end Trace

/-! ## A session that does not -/

section Stale

variable {s₀ : HostPath F} {hist : ℕ → HostIn}

/-- A continuation that lets the loader run: INIT_B answers, the host only waits. -/
def goOn (hist : ℕ → HostIn) (n t : ℕ) : HostIn :=
  if t ≤ n then hist t
  else
    { (default : HostIn) with
      rstN := true, csrMsbf := true, initBSynced := decide (n + 1 + 1002 ≤ t) }

theorem goOn_before {n t : ℕ} (h : t ≤ n) : goOn hist n t = hist t := by simp [goOn, h]

theorem goOn_after {n t : ℕ} (h : n < t) :
    goOn hist n t =
      { (default : HostIn) with
        rstN := true, csrMsbf := true, initBSynced := decide (n + 1 + 1002 ≤ t) } := by
  simp [goOn, Nat.not_le.mpr h]

theorem goOn_continues (n : ℕ) : Continues hist (goOn hist n) n :=
  ⟨fun _ h => goOn_before h, fun t h => by rw [goOn_after h]; rfl⟩

theorem goOn_running {n t : ℕ} (s : HostPath F) (h : n < t) :
    (s.loaderIn (goOn hist n t)).Running := by
  rw [goOn_after h]
  exact ⟨rfl, rfl⟩

/-- Where the loader takes nothing, the host's waiting leaves the FIFO as it is. -/
theorem goOn_contents {n t : ℕ} (h : n < t)
    (hrd : (trace s₀ (goOn hist n) t).rd = false) :
    F.contents (trace s₀ (goOn hist n) (t + 1)).fifo =
      F.contents (trace s₀ (goOn hist n) t).fifo := by
  rw [trace_succ, contents_step (by rw [goOn_after h]) (by rw [goOn_after h]; rfl)
    (by rw [goOn_after h]; rfl), hrd]
  simp

/-- The loader reaches `READ_FIFO` without taking anything from the FIFO. -/
theorem readFifo_of_start {n : ℕ} (hs : (trace s₀ (goOn hist n) (n + 1)).ldr.state = .extendProg)
    (hc : (trace s₀ (goOn hist n) (n + 1)).ldr.timeoutCounter = XilinxLoader.cMinProgDelay) :
    (trace s₀ (goOn hist n) (n + 1 + 1003)).ldr.state = .readFifo ∧
      F.contents (trace s₀ (goOn hist n) (n + 1 + 1003)).fifo =
        F.contents (trace s₀ (goOn hist n) (n + 1)).fifo := by
  obtain ⟨r, hr⟩ : ∃ r, r = trace s₀ (goOn hist n) := ⟨_, rfl⟩
  have hstep : ∀ t, (r (t + 1)).ldr = XilinxLoader.step (r t).ldr ((r t).loaderIn (goOn hist n t)) :=
    fun t => by rw [hr]; rfl
  have hok : ∀ t, n + 1 ≤ t → ((r t).loaderIn (goOn hist n t)).Running :=
    fun t ht => goOn_running (r t) ht
  have hkeep : ∀ t, n < t → (r t).ldr.state ≠ .idle → (r t).ldr.state ≠ .readFifo →
      F.contents (r (t + 1)).fifo = F.contents (r t).fifo := by
    intro t ht hidle hread
    have hrd := rd_false hidle hread
    rw [hr] at hrd ⊢
    exact goOn_contents ht hrd
  rw [← hr] at hs hc ⊢
  obtain ⟨h1, h2, h3⟩ := XilinxLoader.init_handshake (r := fun t => (r t).ldr)
    (i := fun t => (r t).loaderIn (goOn hist n t)) hstep hok hs hc
    (by show (goOn hist n (n + 1 + 1001)).initBSynced = false
        rw [goOn_after (by omega)]; simp)
    (by show (goOn hist n (n + 1 + 1002)).initBSynced = true
        rw [goOn_after (by omega)]; simp)
  have hdwell : ∀ j, j ≤ 1001 → F.contents (r (n + 1 + j)).fifo = F.contents (r (n + 1)).fifo := by
    intro j
    induction j with
    | zero => intro _; rfl
    | succ j ih =>
      intro hj
      have hext := (XilinxLoader.extendProg_dwell (r := fun t => (r t).ldr)
        (i := fun t => (r t).loaderIn (goOn hist n t)) hstep hok hs hc (j := j) (by omega)).1
      rw [← Nat.add_assoc, hkeep _ (by omega) (by simp [hext]) (by simp [hext])]
      exact ih (by omega)
  refine ⟨h3, ?_⟩
  rw [show n + 1 + 1003 = n + 1 + 1002 + 1 by omega, hkeep _ (by omega) (by simp [h2]) (by simp [h2]),
    show n + 1 + 1002 = n + 1 + 1001 + 1 by omega, hkeep _ (by omega) (by simp [h1]) (by simp [h1])]
  exact hdwell 1001 (Nat.le_refl _)

/-- The entry on the read port waits in `READ_FIFO2` for the tick and is then shifted out. -/
theorem shiftsOut_of_port {n m : ℕ} (hnm : n < m)
    (hs : (trace s₀ (goOn hist n) m).ldr.state = .readFifo2) :
    ∃ u, m ≤ u ∧ ShiftsOut s₀ (goOn hist n) u (F.rdData (trace s₀ (goOn hist n) m).fifo) := by
  obtain ⟨r, hr⟩ : ∃ r, r = trace s₀ (goOn hist n) := ⟨_, rfl⟩
  have hstep : ∀ t, (r (t + 1)).ldr = XilinxLoader.step (r t).ldr ((r t).loaderIn (goOn hist n t)) :=
    fun t => by rw [hr]; rfl
  have hok : ∀ k, ((r (m + k)).loaderIn (goOn hist n (m + k))).Running :=
    fun k => goOn_running (r (m + k)) (by omega)
  rw [← hr] at hs ⊢
  have htick : ∃ k, (r (m + k)).ldr.tick = true := by
    have hdiv : ∀ k, ((r (m + k)).loaderIn (goOn hist n (m + k))).csrClkDiv = 0#7 := by
      intro k
      show 0#1 ++ (goOn hist n (m + k)).csrClkdiv = 0#7
      rw [goOn_after (by omega)]
      exact (by decide : 0#1 ++ (default : HostIn).csrClkdiv = 0#7)
    obtain ⟨k, -, -, hk⟩ := XilinxLoader.tick_recurs (r := fun k => (r (m + k)).ldr)
      (i := fun k => (r (m + k)).loaderIn (goOn hist n (m + k))) (fun k => hstep _)
      (fun k => (hok k).1) hdiv 0
    exact ⟨k, hk⟩
  have hhold : ∀ k, k ≤ Nat.find htick → (r (m + k)).ldr.state = .readFifo2 ∧
      F.rdData (r (m + k)).fifo = F.rdData (r m).fifo := by
    intro k
    induction k with
    | zero => intro _; exact ⟨hs, rfl⟩
    | succ k ih =>
      intro hk
      obtain ⟨hsk, hdk⟩ := ih (by omega)
      have hno : (r (m + k)).ldr.tick = false := by
        simpa using Nat.find_min htick (show k < Nat.find htick by omega)
      refine ⟨?_, ?_⟩
      · rw [← Nat.add_assoc, hstep]
        exact XilinxLoader.readFifo2_wait (hok k) hsk hno
      · rw [← hdk, ← Nat.add_assoc, hr, trace_succ, ← hr]
        exact F.rdData_hold _ _ (rd_false (by simp [hsk]) (by simp [hsk]))
  obtain ⟨hsu, hdu⟩ := hhold _ (Nat.le_refl _)
  refine ⟨m + Nat.find htick, by omega, ?_⟩
  rw [ShiftsOut, ← hr]
  refine ⟨hsu, ?_, hdu⟩
  rw [hstep]
  exact XilinxLoader.outputBit_of_tick (hok _) hsu (Nat.find_spec htick)

/-- An entry that is left after START is shifted out as if it were of the new session. -/
theorem shiftsOut_stale {n : ℕ} (hs : (trace s₀ (goOn hist n) (n + 1)).ldr.state = .extendProg)
    (hc : (trace s₀ (goOn hist n) (n + 1)).ldr.timeoutCounter = XilinxLoader.cMinProgDelay)
    {e : Stamped} {q : List Stamped}
    (hq : F.contents (trace s₀ (goOn hist n) (n + 1)).fifo = e :: q) :
    ∃ u, n < u ∧ ShiftsOut s₀ (goOn hist n) u e := by
  obtain ⟨hread, hcont⟩ := readFifo_of_start hs hc
  rw [hq] at hcont
  -- `READ_FIFO` takes the old entry, which is then on the read port.
  obtain ⟨m, hm⟩ : ∃ m, m = n + 1 + 1003 := ⟨_, rfl⟩
  rw [← hm] at hread hcont
  have hrd : (trace s₀ (goOn hist n) m).rd = true := rd_iff.mpr ⟨by simp [hcont], Or.inr hread⟩
  have hempty : ((trace s₀ (goOn hist n) m).loaderIn (goOn hist n m)).csrEmpty = false := by
    show F.rdEmpty (trace s₀ (goOn hist n) m).fifo = false
    rw [F.rdEmpty_eq, hcont]
    rfl
  have hread2 : (trace s₀ (goOn hist n) (m + 1)).ldr.state = .readFifo2 :=
    XilinxLoader.readFifo2_of_entry (goOn_running _ (by omega)) hread hempty
  have hport : F.rdData (trace s₀ (goOn hist n) (m + 1)).fifo = e := by
    rw [trace_succ]
    exact rdData_step (by rw [goOn_after (by omega)]) (by rw [goOn_after (by omega)]; rfl) hrd hcont
  obtain ⟨u, hu, hshift⟩ := shiftsOut_of_port (by omega) hread2
  exact ⟨u, by omega, hport ▸ hshift⟩

/-- More entries than cycles to START: the session is not isolated. -/
theorem not_isolated_of_left (s₀ : HostPath F) (h₀ : ∀ e ∈ F.contents s₀.fifo, e.2 = 0) {T k : ℕ} (hk : 1 ≤ k)
    (hseq : ResetSequence hist T k)
    (hlong : k + popAtSwrst (trace s₀ hist T) < (F.contents (trace s₀ hist T).fifo).length) :
    ¬ Isolated s₀ (goOn hist (T + k)) (T + k) := by
  intro hiso
  obtain ⟨hs, hc, hleft⟩ := after_start s₀ hk hseq
  have hsame : trace s₀ (goOn hist (T + k)) (T + k + 1) = trace s₀ hist (T + k + 1) :=
    trace_congr (goOn_continues (T + k)).same
  obtain ⟨e, q, hq⟩ : ∃ e q, F.contents (trace s₀ (goOn hist (T + k)) (T + k + 1)).fifo = e :: q := by
    rw [hsame, hleft]
    cases hdrop : (F.contents (trace s₀ hist T).fifo).drop (popAtSwrst (trace s₀ hist T) + k) with
    | nil => exact absurd (List.drop_eq_nil_iff.mp hdrop) (by omega)
    | cons e q => exact ⟨e, q, rfl⟩
  obtain ⟨u, hu, hshift⟩ := shiftsOut_stale (by rw [hsame]; exact hs) (by rw [hsame]; exact hc) hq
  have hnew := hiso u e hu hshift
  have hold := stamp_le h₀ (T + k + 1) e (hq ▸ List.mem_cons_self ..)
  omega

end Stale

/-- A session abandoned after START and three words, and the next one with `k` cycles
between its SWRST and its START. -/
def abandoned (k t : ℕ) : HostIn :=
  { (default : HostIn) with
    rstN := true
    csrStart := decide (t = 0 ∨ t = 4 + k)
    csrSwrst := decide (t = 4)
    fifoPush := if 1 ≤ t ∧ t ≤ 3 then some ⟨3#2, false, 0xffffffff#32⟩ else none }

theorem abandoned_resetSequence {k : ℕ} : ResetSequence (abandoned k) 4 k where
  swrst := rfl
  start := by simp [abandoned]
  noSwrst t h _ := by simp [abandoned]; omega
  noStart t h h' := by simp [abandoned]; omega
  noPush t h _ := by simp [abandoned]; omega
  noClear _ _ _ := rfl
  noReset _ _ _ := rfl

/-- The loader and the FIFO after power-up. -/
def powerUp : HostPath (listFifo Stamped 256 default) := ⟨default, ([], default)⟩

/-- With START in the cycle after SWRST, two of the three old words stay in the FIFO and
the first of them is clocked into the FPGA in the new session. -/
theorem session_not_isolated :
    ¬ ∀ (F : FifoSync Stamped 256) (s₀ : HostPath F) (hist : ℕ → HostIn) (T k : ℕ),
      F.contents s₀.fifo = [] → 1 ≤ k → ResetSequence hist T k →
      ∀ inp, Continues hist inp (T + k) → Isolated s₀ inp (T + k) := by
  intro hall
  refine not_isolated_of_left powerUp (by simp [powerUp, listFifo]) (Nat.le_refl 1)
    (abandoned_resetSequence (k := 1)) ?_ (hall _ powerUp (abandoned 1) 4 1 rfl (Nat.le_refl 1)
      abandoned_resetSequence _ (goOn_continues _))
  decide

/-- A session is isolated from its predecessors, whatever follows START, exactly when the
entries left in the FIFO at SWRST are no more than the cycles from SWRST to START, and one
more where the loader was reading the FIFO at that moment. -/
theorem session_isolated_iff (F : FifoSync Stamped 256) (s₀ : HostPath F)
    (h₀ : ∀ e ∈ F.contents s₀.fifo, e.2 = 0) (hist : ℕ → HostIn) (T k : ℕ) (hk : 1 ≤ k)
    (hseq : ResetSequence hist T k) :
    (∀ inp, Continues hist inp (T + k) → Isolated s₀ inp (T + k)) ↔
      (F.contents (trace s₀ hist T).fifo).length ≤ k + popAtSwrst (trace s₀ hist T) := by
  obtain ⟨hs, hc, hleft⟩ := after_start s₀ hk hseq
  constructor
  · intro hiso
    by_contra hlong
    exact not_isolated_of_left s₀ h₀ hk hseq (by omega) (hiso _ (goOn_continues (T + k)))
  · intro hlen inp hcont
    have hsame : trace s₀ inp (T + k + 1) = trace s₀ hist (T + k + 1) := trace_congr hcont.same
    refine isolated_of_empty hcont.noClear (by rw [hsame, hs]; simp) ?_
    rw [hsame, hleft]
    exact List.drop_eq_nil_of_le (by omega)

/-- Three cycles from SWRST to START are enough for the three words of `abandoned`. -/
theorem session_isolated_iff_three : Isolated powerUp (goOn (abandoned 3) 7) 7 :=
  (session_isolated_iff _ powerUp (by simp [powerUp, listFifo]) (abandoned 3) 4 3 (by decide)
    abandoned_resetSequence).mpr (by decide) _ (goOn_continues 7)

end Svec.Loader.Session
