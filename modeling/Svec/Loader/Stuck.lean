/-
  Loader/Stuck.lean --- when the loader takes nothing from the FIFO any more.

  The loader reads the FIFO in `IDLE` and in `READ_FIFO`.  From every other state
  but one the pins can lead it back to one of the two without the host; from
  `GOT_DONE` only EXIT or SWRST do.
-/
import Svec.Loader.Moves
import Svec.Loader.Session

set_option autoImplicit false

namespace Svec.Loader.Stuck

open Svec.Data Svec.Sync Svec.Hdl Svec.Loader.Session
open Svec.Hdl.XilinxLoader (Regs In State pMainFsm pDivideClock cStartupCycles)

variable {F : FifoSync Stamped 256}

/-- The host does nothing in a cycle; `c` is the divider it has set. -/
structure Waits (c : BitVec 6) (i : HostIn) : Prop where
  rstN : i.rstN = true
  noSwrst : i.csrSwrst = false
  noStart : i.csrStart = false
  noExit : i.csrExit = false
  noClear : i.fifoClearBus = false
  noPush : i.fifoPush = none
  clkdiv : i.csrClkdiv = c

/-- However the pins go on after cycle `t`, the loader takes nothing from the FIFO for as long
as the host waits. -/
def ReadsNoMore (s₀ : HostPath F) (inp : ℕ → HostIn) (t : ℕ) : Prop :=
  ∀ inp', (∀ k, k < t → inp' k = inp k) → (∀ k, t ≤ k → Waits (inp t).csrClkdiv (inp' k)) →
    ∀ k, t ≤ k → (trace s₀ inp' k).rd = false

theorem trace_before {s₀ : HostPath F} {inp inp' : ℕ → HostIn} {t : ℕ}
    (h : ∀ k, k < t → inp' k = inp k) : trace s₀ inp' t = trace s₀ inp t :=
  run_congr fun k hk => by rw [h k hk]

/-- `GOT_DONE` stays until EXIT or SWRST. -/
theorem gotDone_step {s : HostPath F} {n : ℕ} {i : HostIn} (hs : s.ldr.state = .gotDone)
    (hrst : i.rstN = true) (hswrst : i.csrSwrst = false) (hexit : i.csrExit = false) :
    (s.step (n, i)).ldr.state = .gotDone := by
  have hguard : (!(s.loaderIn i).rstN || (s.loaderIn i).csrSwrst) = false := by
    simp [HostPath.loaderIn, hrst, hswrst]
  have hstartup : (s.loaderIn i).csrStartup = false := hexit
  show (pMainFsm s.ldr (s.loaderIn i)).state = .gotDone
  simp [pMainFsm, hguard, hs, hstartup]

theorem readsNoMore_of_gotDone {s₀ : HostPath F} {inp : ℕ → HostIn} {t : ℕ}
    (h : (trace s₀ inp t).ldr.state = .gotDone) : ReadsNoMore s₀ inp t := by
  intro inp' hsame hwaits k hk
  have hstay : (trace s₀ inp' k).ldr.state = .gotDone := by
    induction hk with
    | refl => rw [trace_before hsame, h]
    | @step k hk ih =>
      have hw := hwaits k hk
      exact gotDone_step ih hw.rstN hw.noSwrst hw.noExit
  exact rd_false (by simp [hstay]) (by simp [hstay])

/-! ## The way back to the FIFO -/

/-- The number of cycles to the next tick. -/
def tickWait (c : BitVec 6) (r : Regs) : ℕ :=
  if r.tick then 0 else ((0#1 ++ c) - r.clkDiv).toNat + 1

theorem tickWait_le (c : BitVec 6) (r : Regs) : tickWait c r ≤ 128 := by
  unfold tickWait
  have := ((0#1 ++ c) - r.clkDiv).isLt
  split <;> omega

theorem tickWait_step {c : BitVec 6} {r : Regs} {i : In} (hrst : i.rstN = true)
    (hdiv : i.csrClkDiv = 0#1 ++ c) (ht : r.tick = false) :
    tickWait c (XilinxLoader.step r i) < tickWait c r := by
  unfold tickWait
  rw [XilinxLoader.step_tick, XilinxLoader.step_clkDiv, pDivideClock, hrst, hdiv, ht]
  by_cases hmeet : r.clkDiv = 0#1 ++ c
  · simp [hmeet]
  · simp only [Bool.not_true, Bool.false_eq_true, if_false, if_neg hmeet, Nat.add_lt_add_iff_right]
    have hne : r.clkDiv.toNat ≠ (0#1 ++ c).toNat := fun h => hmeet (BitVec.eq_of_toNat_eq h)
    generalize (0#1 ++ c : BitVec 7) = d at *
    rw [BitVec.toNat_sub, BitVec.toNat_sub, BitVec.toNat_add]
    have h1 := r.clkDiv.isLt
    have h2 := d.isLt
    simp only [BitVec.toNat_ofNat]
    omega

/-- The rounds of the two clock states of the start-up that are still to come. -/
def pulsesLeft (r : Regs) : ℕ := (cStartupCycles - r.startupCount).toNat

theorem pulsesLeft_succ {n : BitVec 21} (h : n ≠ cStartupCycles) :
    (cStartupCycles - (n + 1#21)).toNat + 1 = (cStartupCycles - n).toNat := by
  have hne : n.toNat ≠ 1024 := fun h' => h (BitVec.eq_of_toNat_eq h')
  have hlt := n.isLt
  rw [BitVec.toNat_sub, BitVec.toNat_sub, BitVec.toNat_add]
  simp only [cStartupCycles, BitVec.toNat_ofNat]
  omega

/-- The states that wait for a tick. -/
def Ticking (r : Regs) : Prop :=
  r.state = .readFifo2 ∨ r.state = .outputBit ∨ r.state = .clockEdge ∨
    r.state = .startupCclk0 ∨ r.state = .startupCclk1

/-- The ticks that it takes the loader at most to leave these states. -/
def ticksLeft (r : Regs) : ℕ :=
  match r.state with
  | .startupCclk1 => 1 + 2 * pulsesLeft r
  | .startupCclk0 => 2 + 2 * pulsesLeft r
  | .clockEdge => 2 + 2 * r.bitCounter.toNat
  | .outputBit => 3 + 2 * r.bitCounter.toNat
  | .readFifo2 => 68
  | _ => 0

/-- How long it takes the loader at most to get back to the FIFO if the pins help. -/
def patience (c : BitVec 6) (r : Regs) : ℕ :=
  match r.state with
  | .idle | .readFifo | .gotDone => 0
  | .waitDone | .waitInit2 => 1
  | .waitInit => 2
  | .extendProg => 3 + r.timeoutCounter.toNat
  | _ => ticksLeft r * 200 + tickWait c r

/-- The pins as they help: INIT_B answers, and DONE comes when it is waited for. -/
def helped (c : BitVec 6) (r : Regs) : HostIn :=
  { (default : HostIn) with
    rstN := true, csrMsbf := true, csrClkdiv := c
    initBSynced := decide (r.state = .waitInit2), doneSynced := decide (r.state = .waitDone) }

theorem helped_waits (c : BitVec 6) (r : Regs) : Waits c (helped c r) :=
  ⟨rfl, rfl, rfl, rfl, rfl, rfl, rfl⟩

theorem patience_of_ticking {r : Regs} (c : BitVec 6) (h : Ticking r) :
    patience c r = ticksLeft r * 200 + tickWait c r := by
  rcases h with hs | hs | hs | hs | hs <;> simp only [patience, hs]

section Step

variable {r : Regs} {i : In}

/-- Without a tick these states only wait. -/
theorem ticking_hold (hrun : i.Running) (h : Ticking r) (ht : r.tick = false) :
    (XilinxLoader.step r i).state = r.state ∧
      ticksLeft (XilinxLoader.step r i) = ticksLeft r := by
  have keeps : (XilinxLoader.step r i).state = r.state ∧
      (XilinxLoader.step r i).bitCounter = r.bitCounter ∧
      (XilinxLoader.step r i).startupCount = r.startupCount := by
    rcases h with hs | hs | hs | hs | hs <;>
      simp [XilinxLoader.step, pMainFsm, hrun.guard, hs, ht]
  obtain ⟨hst, hbit, hpulse⟩ := keeps
  refine ⟨hst, ?_⟩
  unfold ticksLeft pulsesLeft
  rw [hst, hbit, hpulse]

/-- A tick takes the loader on if DONE is low when a bit is due. -/
theorem ticking_tick (hrun : i.Running) (h : Ticking r) (ht : r.tick = true)
    (hd : r.state = .outputBit → i.doneSynced = false) :
    (Ticking (XilinxLoader.step r i) ∧
        ticksLeft (XilinxLoader.step r i) < ticksLeft r) ∨
      (XilinxLoader.step r i).state = .idle ∨ (XilinxLoader.step r i).state = .readFifo ∨
        (XilinxLoader.step r i).state = .waitDone := by
  rcases h with hs | hs | hs | hs | hs
  · have hst : (XilinxLoader.step r i).state = .outputBit := by
      simp [pMainFsm, hrun.guard, hs, ht]
    have hlt := (XilinxLoader.step r i).bitCounter.isLt
    refine .inl ⟨.inr (.inl hst), ?_⟩
    simp only [ticksLeft, hst, hs]
    omega
  · have hst : (XilinxLoader.step r i).state = .clockEdge := by
      simp [pMainFsm, hrun.guard, hs, ht, hd hs]
    have hbit : (XilinxLoader.step r i).bitCounter = r.bitCounter := by
      simp [pMainFsm, hrun.guard, hs, ht]
    refine .inl ⟨.inr (.inr (.inl hst)), ?_⟩
    simp only [ticksLeft, hst, hs, hbit]
    omega
  · by_cases hzero : r.bitCounter = 0#5
    · right
      cases hl : r.dLast <;> simp [pMainFsm, hrun.guard, hs, ht, hzero, hl]
    · have hst : (XilinxLoader.step r i).state = .outputBit := by
        simp [pMainFsm, hrun.guard, hs, ht, hzero]
      have hbit : (XilinxLoader.step r i).bitCounter = r.bitCounter - 1#5 := by
        simp [pMainFsm, hrun.guard, hs, ht, hzero]
      have hpred := sub_one_toNat hzero
      refine .inl ⟨.inr (.inl hst), ?_⟩
      simp only [ticksLeft, hst, hs, hbit]
      omega
  · have hst : (XilinxLoader.step r i).state = .startupCclk1 := by
      simp [pMainFsm, hrun.guard, hs, ht]
    have hpulse : (XilinxLoader.step r i).startupCount = r.startupCount := by
      simp [XilinxLoader.step, pMainFsm, hrun.guard, hs, ht]
    refine .inl ⟨.inr (.inr (.inr (.inr hst))), ?_⟩
    simp only [ticksLeft, pulsesLeft, hst, hs, hpulse]
    omega
  · by_cases hlast : r.startupCount = cStartupCycles
    · right
      left
      simp [pMainFsm, hrun.guard, hs, ht, hlast]
    · have hst : (XilinxLoader.step r i).state = .startupCclk0 := by
        simp [pMainFsm, hrun.guard, hs, ht, hlast]
      have hpulse : (XilinxLoader.step r i).startupCount = r.startupCount + 1#21 := by
        simp [XilinxLoader.step, pMainFsm, hrun.guard, hs, ht]
      have hfewer := pulsesLeft_succ hlast
      refine .inl ⟨.inr (.inr (.inr (.inl hst))), ?_⟩
      simp only [ticksLeft, pulsesLeft, hst, hs, hpulse]
      omega

/-- One cycle with the pins' help. -/
theorem patience_step {c : BitVec 6} (hrun : i.Running) (hdiv : i.csrClkDiv = 0#1 ++ c)
    (hb : i.initBSynced = decide (r.state = .waitInit2))
    (hd : i.doneSynced = decide (r.state = .waitDone)) (hidle : r.state ≠ .idle)
    (hread : r.state ≠ .readFifo) (hgot : r.state ≠ .gotDone) :
    patience c (XilinxLoader.step r i) < patience c r ∧
      (XilinxLoader.step r i).state ≠ .gotDone := by
  have leaves : ∀ {st : State}, (XilinxLoader.step r i).state = st →
      (∀ r', r'.state = st → patience c r' < patience c r) → st ≠ .gotDone →
      patience c (XilinxLoader.step r i) < patience c r ∧
        (XilinxLoader.step r i).state ≠ .gotDone :=
    fun hst hlt hne => ⟨hlt _ hst, hst ▸ hne⟩
  by_cases tick : Ticking r
  · have hlow : i.doneSynced = false := by
      rw [hd]
      rcases tick with hs | hs | hs | hs | hs <;> rw [hs] <;> rfl
    have hp := patience_of_ticking c tick
    have hsome : 1 ≤ ticksLeft r := by
      rcases tick with hs | hs | hs | hs | hs <;> simp only [ticksLeft, hs] <;> omega
    cases ht : r.tick with
    | false =>
      obtain ⟨hst, hticks⟩ := ticking_hold hrun tick ht
      have tick' : Ticking (XilinxLoader.step r i) := by
        unfold Ticking
        rw [hst]
        exact tick
      have hwait := tickWait_step hrun.1 hdiv ht
      rw [hp, patience_of_ticking c tick', hticks]
      exact ⟨by omega, hst ▸ hgot⟩
    | true =>
      have hle := tickWait_le c (XilinxLoader.step r i)
      rcases ticking_tick hrun tick ht (fun _ => hlow) with ⟨tick', hticks⟩ | hst | hst | hst
      · rw [hp, patience_of_ticking c tick']
        refine ⟨by omega, ?_⟩
        rcases tick' with hs | hs | hs | hs | hs <;> rw [hs] <;> decide
      · exact leaves hst (fun r' h => by rw [hp]; simp only [patience, h]; omega) (by decide)
      · exact leaves hst (fun r' h => by rw [hp]; simp only [patience, h]; omega) (by decide)
      · exact leaves hst (fun r' h => by rw [hp]; simp only [patience, h]; omega) (by decide)
  · cases hs : r.state with
    | idle => exact absurd hs hidle
    | readFifo => exact absurd hs hread
    | gotDone => exact absurd hs hgot
    | waitDone =>
      have hst : (XilinxLoader.step r i).state = .idle := by
        rw [XilinxLoader.step_state]
        simp only [pMainFsm, hrun.guard, hs, hd]
        by_cases hc : r.timeoutCounter = 0#21 <;> simp [hc]
      exact leaves hst (fun r' h => by simp only [patience, h, hs]; decide) (by decide)
    | waitInit2 =>
      have hst : (XilinxLoader.step r i).state = .readFifo := by
        simp [pMainFsm, hrun.guard, hs, hb]
      exact leaves hst (fun r' h => by simp only [patience, h, hs]; decide) (by decide)
    | waitInit =>
      have hst : (XilinxLoader.step r i).state = .waitInit2 := by
        simp [pMainFsm, hrun.guard, hs, hb]
      exact leaves hst (fun r' h => by simp only [patience, h, hs]; decide) (by decide)
    | extendProg =>
      by_cases hc : r.timeoutCounter = 0#21
      · have hst : (XilinxLoader.step r i).state = .waitInit := by
          simp [pMainFsm, hrun.guard, hs, hc]
        exact leaves hst (fun r' h => by simp only [patience, h, hs]; omega) (by decide)
      · have hst : (XilinxLoader.step r i).state = .extendProg := by
          simp [pMainFsm, hrun.guard, hs, hc]
        have hcnt : (XilinxLoader.step r i).timeoutCounter = r.timeoutCounter - 1#21 := by
          simp [pMainFsm, hrun.guard, hs, hc]
        have hpred := sub_one_toNat hc
        refine ⟨?_, by rw [hst]; decide⟩
        simp only [patience, hst, hs, hcnt]
        omega
    | readFifo2 => exact absurd (.inl hs) tick
    | outputBit => exact absurd (.inr (.inl hs)) tick
    | clockEdge => exact absurd (.inr (.inr (.inl hs))) tick
    | startupCclk0 => exact absurd (.inr (.inr (.inr (.inl hs)))) tick
    | startupCclk1 => exact absurd (.inr (.inr (.inr (.inr hs)))) tick

end Step

/-- From every state but `GOT_DONE` the loader can get back to the FIFO while the host waits:
the pins decide. -/
theorem reads_again {s₀ : HostPath F} {c : BitVec 6} (n : ℕ) (inp : ℕ → HostIn) (t : ℕ)
    (hn : patience c (trace s₀ inp t).ldr ≤ n) (hgot : (trace s₀ inp t).ldr.state ≠ .gotDone)
    (hne : F.contents (trace s₀ inp t).fifo ≠ []) :
    ∃ inp', (∀ k, k < t → inp' k = inp k) ∧ (∀ k, t ≤ k → Waits c (inp' k)) ∧
      ∃ k, t ≤ k ∧ (trace s₀ inp' k).rd = true := by
  induction n using Nat.strongRecOn generalizing inp t with
  | ind n ih =>
    -- The host waits from now on, and the pins help in this cycle.
    let next : ℕ → HostIn := fun k => if k < t then inp k else helped c (trace s₀ inp t).ldr
    have hbefore : ∀ k, k < t → next k = inp k := fun k hk => if_pos hk
    have hnow : next t = helped c (trace s₀ inp t).ldr := if_neg (Nat.lt_irrefl t)
    have hsame : trace s₀ next t = trace s₀ inp t := trace_before hbefore
    cases hrd : (trace s₀ inp t).rd with
    | true =>
      refine ⟨next, hbefore, fun k hk => ?_, t, Nat.le_refl t, by rw [hsame, hrd]⟩
      rw [show next k = helped c (trace s₀ inp t).ldr from if_neg (Nat.not_lt.mpr hk)]
      exact helped_waits c _
    | false =>
      have hidle : (trace s₀ inp t).ldr.state ≠ .idle ∧ (trace s₀ inp t).ldr.state ≠ .readFifo := by
        constructor <;> intro hs <;>
          exact absurd (rd_iff.mpr ⟨hne, by simp [hs]⟩) (by simp [hrd])
      obtain ⟨hless, hgot'⟩ := patience_step (c := c) (r := (trace s₀ inp t).ldr)
        (i := (trace s₀ inp t).loaderIn (helped c (trace s₀ inp t).ldr)) ⟨rfl, rfl⟩ rfl rfl rfl
        hidle.1 hidle.2 hgot
      have hstep : trace s₀ next (t + 1) =
          (trace s₀ inp t).step (t, helped c (trace s₀ inp t).ldr) := by
        rw [trace_succ, hsame, hnow]
      have hkeep : F.contents (trace s₀ next (t + 1)).fifo = F.contents (trace s₀ inp t).fifo := by
        rw [hstep, contents_step rfl rfl rfl, hrd]
        rfl
      obtain ⟨inp', hsame', hwaits, k, hk, hreads⟩ := ih _ (Nat.lt_of_lt_of_le hless hn) next (t + 1)
        (by rw [hstep]; exact Nat.le_refl _) (by rw [hstep]; exact hgot') (by rw [hkeep]; exact hne)
      refine ⟨inp', fun k hk => ?_, fun k hk => ?_, k, Nat.le_of_succ_le hk, hreads⟩
      · rw [hsame' k (Nat.lt_succ_of_lt hk), hbefore k hk]
      · rcases Nat.eq_or_lt_of_le hk with rfl | hk
        · rw [hsame' t (Nat.lt_succ_self t), hnow]
          exact helped_waits c _
        · exact hwaits k hk

/-- With something in the FIFO, the loader reads no more exactly in `GOT_DONE`. -/
theorem readsNoMore_iff {s₀ : HostPath F} {inp : ℕ → HostIn} {t : ℕ}
    (hne : F.contents (trace s₀ inp t).fifo ≠ []) :
    ReadsNoMore s₀ inp t ↔ (trace s₀ inp t).ldr.state = .gotDone := by
  refine ⟨fun h => ?_, readsNoMore_of_gotDone⟩
  by_contra hgot
  obtain ⟨inp', hsame, hwaits, k, hk, hrd⟩ := reads_again (c := (inp t).csrClkdiv) _ inp t
    (Nat.le_refl _) hgot hne
  rw [h inp' hsame hwaits k hk] at hrd
  exact absurd hrd (by decide)

/-! ## How it gets there -/

/-- The loader gives up a load in cycle `t`: a bit is due, and DONE is high. -/
def GivesUp (s : HostPath F) (i : HostIn) : Prop :=
  (s.loaderIn i).Running ∧ s.ldr.state = .outputBit ∧ s.ldr.tick = true ∧ i.doneSynced = true

instance (s : HostPath F) (i : HostIn) : Decidable (GivesUp s i) :=
  inferInstanceAs (Decidable ((_ ∧ _) ∧ _ ∧ _ ∧ _))

theorem gotDone_of_givesUp {s : HostPath F} {n : ℕ} {i : HostIn} (h : GivesUp s i) :
    (s.step (n, i)).ldr.state = .gotDone := by
  obtain ⟨hrun, hs, ht, hd⟩ := h
  have hd : (s.loaderIn i).doneSynced = true := hd
  show (pMainFsm s.ldr (s.loaderIn i)).state = .gotDone
  simp [pMainFsm, hrun.guard, hs, ht, hd]

theorem gotDone_from {s : HostPath F} {n : ℕ} {i : HostIn}
    (h : (s.step (n, i)).ldr.state = .gotDone) : s.ldr.state = .gotDone ∨ GivesUp s i := by
  have h : (XilinxLoader.step s.ldr (s.loaderIn i)).state = .gotDone := h
  rcases moves s.ldr (s.loaderIn i)
  case gotDone hrun hs ht hd _ => exact .inr ⟨hrun, hs, ht, hd⟩
  case exitWait hs _ _ => exact .inl hs
  case hold out => exact .inl (out.state.symm.trans h)
  case edge hst _ out =>
    rw [out.state] at h
    rcases hst with rfl | rfl | rfl <;> exact absurd h (by decide)
  case startupHigh out =>
    rw [out.state] at h
    split at h <;> exact absurd h (by decide)
  all_goals
    rename_i out
    exact absurd (out.state.symm.trans h) (by decide)

/-- A loader that stands in `GOT_DONE` and did not at cycle `n` gave up a load in between. -/
theorem gaveUp_of_gotDone {s₀ : HostPath F} {inp : ℕ → HostIn} {n t : ℕ} (hnt : n ≤ t)
    (hn : (trace s₀ inp n).ldr.state ≠ .gotDone) (ht : (trace s₀ inp t).ldr.state = .gotDone) :
    ∃ u, n ≤ u ∧ u < t ∧ GivesUp (trace s₀ inp u) (inp u) := by
  induction hnt with
  | refl => exact absurd ht hn
  | @step t hnt ih =>
    rcases gotDone_from (s := trace s₀ inp t) (n := t) (i := inp t) ht with hs | hu
    · obtain ⟨u, hnu, hut, hgives⟩ := ih hs
      exact ⟨u, hnu, Nat.lt_succ_of_lt hut, hgives⟩
    · exact ⟨t, hnt, Nat.lt_succ_self t, hu⟩

/-! ## How full the FIFO is -/

/-- The number of entries in the FIFO. -/
def fill (s : HostPath F) : ℕ := (F.contents s.fifo).length

/-- One entry for a push. -/
def pushOf (i : HostIn) : ℕ := if i.fifoPush.isSome then 1 else 0

/-- The number of entries pushed before a cycle. -/
def pushed (inp : ℕ → HostIn) : ℕ → ℕ
  | 0 => 0
  | t + 1 => pushed inp t + pushOf (inp t)

theorem pushed_congr {inp inp' : ℕ → HostIn} {t : ℕ} (h : ∀ k, k < t → inp k = inp' k) :
    pushed inp t = pushed inp' t := by
  induction t with
  | zero => rfl
  | succ t ih =>
    rw [pushed, pushed, ih fun k hk => h k (Nat.lt_succ_of_lt hk), h t (Nat.lt_succ_self t)]

theorem pushed_mono (inp : ℕ → HostIn) {a b : ℕ} (h : a ≤ b) : pushed inp a ≤ pushed inp b := by
  induction h with
  | refl => exact Nat.le_refl _
  | step _ ih => exact Nat.le_trans ih (Nat.le_add_right _ _)

theorem pushOf_le_one (i : HostIn) : pushOf i ≤ 1 := by
  unfold pushOf
  split <;> decide

section Fill

variable {s : HostPath F} {i : ℕ × HostIn}

theorem wrFull_iff : F.wrFull s.fifo = true ↔ 256 ≤ fill s := by
  rw [F.wrFull_eq, decide_eq_true_iff, fill]

theorem fill_step (hr : i.2.rstN = true) (hc : i.2.fifoClearBus = false) :
    fill (s.step i) = (if s.rd then fill s - 1 else fill s) +
      (if i.2.fifoPush.isSome && !F.wrFull s.fifo then 1 else 0) := by
  have hclear : (i.2.rstN && !i.2.fifoClearBus) = true := by rw [hr, hc]; rfl
  unfold fill HostPath.step
  rw [F.contents_step _ _ hclear, List.length_append]
  congr 1
  · dsimp only
    split
    · exact List.length_tail
    · rfl
  · dsimp only
    split <;> rfl

theorem fill_clear (hc : (i.2.rstN && !i.2.fifoClearBus) = false) : fill (s.step i) = 0 := by
  have hempty : F.contents (s.step i).fifo = [] := F.contents_clear _ _ hc
  rw [fill, hempty]
  rfl

/-- A cycle adds at most what is pushed in it. -/
theorem fill_step_le : fill (s.step i) ≤ fill s + pushOf i.2 := by
  cases hclear : (i.2.rstN && !i.2.fifoClearBus) with
  | false =>
    rw [fill_clear hclear]
    exact Nat.zero_le _
  | true =>
    simp only [Bool.and_eq_true, Bool.not_eq_true'] at hclear
    rw [fill_step hclear.1 hclear.2, pushOf]
    have htaken : (if s.rd then fill s - 1 else fill s) ≤ fill s := by split <;> omega
    have hadded : (if i.2.fifoPush.isSome && !F.wrFull s.fifo then 1 else 0) ≤
        if i.2.fifoPush.isSome then 1 else 0 := by
      cases i.2.fifoPush.isSome <;> cases F.wrFull s.fifo <;> decide
    exact Nat.add_le_add htaken hadded

/-- The FIFO never holds more than its 256 entries. -/
theorem fill_step_cap (h : fill s ≤ 256) : fill (s.step i) ≤ 256 := by
  have hle := fill_step_le (s := s) (i := i)
  by_cases hfull : fill s = 256
  · cases hclear : (i.2.rstN && !i.2.fifoClearBus) with
    | false =>
      rw [fill_clear hclear]
      exact Nat.zero_le _
    | true =>
      simp only [Bool.and_eq_true, Bool.not_eq_true'] at hclear
      rw [fill_step hclear.1 hclear.2, wrFull_iff.mpr (Nat.le_of_eq hfull.symm)]
      cases s.rd <;> simp <;> omega
  · have := pushOf_le_one i.2
    omega

/-- Where the loader reads nothing and the FIFO has room for what is pushed, it holds one
entry more for each push. -/
theorem fill_step_eq (hr : i.2.rstN = true) (hc : i.2.fifoClearBus = false) (hrd : s.rd = false)
    (hroom : i.2.fifoPush.isSome = true → F.wrFull s.fifo = false) :
    fill (s.step i) = fill s + pushOf i.2 := by
  rw [fill_step hr hc, hrd, pushOf]
  cases hp : i.2.fifoPush.isSome with
  | false => rfl
  | true => simp [hroom hp]

end Fill

section Run

variable {s₀ : HostPath F} {inp : ℕ → HostIn} {u t : ℕ}

theorem fill_le_cap (h₀ : fill s₀ ≤ 256) (t : ℕ) : fill (trace s₀ inp t) ≤ 256 := by
  induction t with
  | zero => exact h₀
  | succ t ih => exact fill_step_cap ih

/-- Between two cycles the FIFO grows by no more than what was pushed. -/
theorem fill_add_pushed_le (h : u ≤ t) :
    fill (trace s₀ inp t) + pushed inp u ≤ fill (trace s₀ inp u) + pushed inp t := by
  induction h with
  | refl => exact Nat.le_refl _
  | @step t h ih =>
    have hle : fill (trace s₀ inp (t + 1)) ≤ fill (trace s₀ inp t) + pushOf (inp t) := fill_step_le
    show fill (trace s₀ inp (t + 1)) + _ ≤ _ + (pushed inp t + pushOf (inp t))
    omega

/-- While the loader reads nothing and there is room, it grows by exactly that. -/
theorem fill_add_pushed_eq (h : u ≤ t)
    (hstep : ∀ k, u ≤ k → k < t → (inp k).rstN = true ∧ (inp k).fifoClearBus = false ∧
      (trace s₀ inp k).rd = false ∧
      ((inp k).fifoPush.isSome = true → F.wrFull (trace s₀ inp k).fifo = false)) :
    fill (trace s₀ inp t) + pushed inp u = fill (trace s₀ inp u) + pushed inp t := by
  induction h with
  | refl => rfl
  | @step t h ih =>
    obtain ⟨hr, hc, hrd, hroom⟩ := hstep t h (Nat.lt_succ_self t)
    have heq : fill (trace s₀ inp (t + 1)) = fill (trace s₀ inp t) + pushOf (inp t) :=
      fill_step_eq hr hc hrd hroom
    have := ih fun k huk hkt => hstep k huk (Nat.lt_succ_of_lt hkt)
    show fill (trace s₀ inp (t + 1)) + _ = _ + (pushed inp t + pushOf (inp t))
    omega

end Run

/-! ## A full FIFO that is not read -/

/-- The loader waits for the FPGA: for PROG_B and INIT_B when a load begins, for DONE when it ends. -/
def Waiting (r : Regs) : Prop :=
  r.state = .extendProg ∨ r.state = .waitInit ∨ r.state = .waitInit2 ∨ r.state = .waitDone

instance (r : Regs) : Decidable (Waiting r) := inferInstanceAs (Decidable (_ ∨ _))

/-- It shifts an entry out. -/
def ShiftsEntry (r : Regs) : Prop :=
  r.state = .readFifo2 ∨ r.state = .outputBit ∨ r.state = .clockEdge

theorem ShiftsEntry.ticking {r : Regs} (h : ShiftsEntry r) : Ticking r := by
  rcases h with hs | hs | hs
  · exact .inl hs
  · exact .inr (.inl hs)
  · exact .inr (.inr (.inl hs))

/-- The cycles that an entry still takes at most. -/
def entryLeft (c : BitVec 6) (r : Regs) : ℕ := ticksLeft r * 129 + tickWait c r

theorem ShiftsEntry.entryLeft_pos {c : BitVec 6} {r : Regs} (h : ShiftsEntry r) : 0 < entryLeft c r := by
  unfold entryLeft ticksLeft
  rcases h with hs | hs | hs <;> simp only [hs] <;> omega

theorem ShiftsEntry.entryLeft_le {c : BitVec 6} {r : Regs} (h : ShiftsEntry r) : entryLeft c r ≤ 8900 := by
  have hwait := tickWait_le c r
  have hbits := r.bitCounter.isLt
  unfold entryLeft ticksLeft
  rcases h with hs | hs | hs <;> simp only [hs] <;> omega

/-- The states in which the loader could read the FIFO, reads it no more, or has read it all. -/
def Elsewhere (r : Regs) : Prop :=
  r.state = .idle ∨ r.state = .readFifo ∨ r.state = .gotDone ∨ r.state = .startupCclk0 ∨
    r.state = .startupCclk1

theorem waiting_or_shiftsEntry {r : Regs} (h : ¬ Elsewhere r) : Waiting r ∨ ShiftsEntry r := by
  unfold Elsewhere at h
  unfold Waiting ShiftsEntry
  cases hs : r.state <;> simp [hs] at h ⊢

section Step

variable {r : Regs} {i : In}

theorem waiting_step (hrun : i.Running) (h : Waiting r) :
    Waiting (XilinxLoader.step r i) ∨ Elsewhere (XilinxLoader.step r i) := by
  unfold Waiting Elsewhere
  rw [XilinxLoader.step_state]
  unfold pMainFsm
  rw [hrun.guard]
  rcases h with hs | hs | hs | hs <;> simp only [hs, Bool.false_eq_true, if_false] <;>
    (repeat' split) <;> simp [hs]

/-- Only EXIT starts the clock cycles of the start-up. -/
theorem no_startup_step (hexit : i.csrStartup = false)
    (h : r.state ≠ .startupCclk0 ∧ r.state ≠ .startupCclk1) :
    (XilinxLoader.step r i).state ≠ .startupCclk0 ∧ (XilinxLoader.step r i).state ≠ .startupCclk1 := by
  rw [XilinxLoader.step_state]
  unfold pMainFsm
  cases hs : r.state <;> simp only [hs] at h ⊢
  case startupCclk0 => exact absurd rfl h.1
  case startupCclk1 => exact absurd rfl h.2
  all_goals (repeat' split) <;> simp_all

/-- An entry is shifted out, a cycle after the other. -/
theorem shiftsEntry_step {c : BitVec 6} (hrun : i.Running) (hdiv : i.csrClkDiv = 0#1 ++ c)
    (h : ShiftsEntry r) (hnext : ¬ Elsewhere (XilinxLoader.step r i)) :
    Waiting (XilinxLoader.step r i) ∨ ShiftsEntry (XilinxLoader.step r i) ∧
      entryLeft c (XilinxLoader.step r i) < entryLeft c r := by
  cases ht : r.tick with
  | false =>
    obtain ⟨hst, hticks⟩ := ticking_hold hrun h.ticking ht
    have hwait := tickWait_step hrun.1 hdiv ht
    refine .inr ⟨by unfold ShiftsEntry; rw [hst]; exact h, ?_⟩
    unfold entryLeft
    omega
  | true =>
    have hlow : r.state = .outputBit → i.doneSynced = false := by
      intro hs
      by_contra hd
      have hgot : (XilinxLoader.step r i).state = .gotDone := by
        simp [pMainFsm, hrun.guard, hs, ht, hd]
      exact hnext (.inr (.inr (.inl hgot)))
    have hwait := tickWait_le c (XilinxLoader.step r i)
    rcases ticking_tick hrun h.ticking ht hlow with ⟨-, hticks⟩ | hst | hst | hst
    · refine (waiting_or_shiftsEntry hnext).imp_right fun hshift => ⟨hshift, ?_⟩
      unfold entryLeft
      omega
    · exact absurd (.inl hst) hnext
    · exact absurd (.inr (.inl hst)) hnext
    · exact .inl (.inr (.inr (.inr hst)))

end Step

/-- What a loader does that leaves a FIFO alone for as long as an entry takes: it waits for the
FPGA. -/
theorem waiting_of_unread {s₀ : HostPath F} {inp : ℕ → HostIn} {c : BitVec 6} {a n : ℕ}
    (hcalm : ∀ k, k < n → ((trace s₀ inp (a + k)).loaderIn (inp (a + k))).Running ∧
      (inp (a + k)).csrClkdiv = c)
    (hstate : ∀ k, k ≤ n → ¬ Elsewhere (trace s₀ inp (a + k)).ldr) (hn : 8900 ≤ n) :
    Waiting (trace s₀ inp (a + n)).ldr := by
  have hrank : ∀ k, k ≤ n → Waiting (trace s₀ inp (a + k)).ldr ∨ ShiftsEntry (trace s₀ inp (a + k)).ldr ∧
      entryLeft c (trace s₀ inp (a + k)).ldr + k ≤ 8900 := by
    intro k
    induction k with
    | zero =>
      intro _
      exact (waiting_or_shiftsEntry (hstate 0 (Nat.zero_le n))).imp_right fun h => ⟨h, h.entryLeft_le⟩
    | succ k ih =>
      intro hk
      obtain ⟨hrun, hdiv⟩ := hcalm k hk
      have hstep : (trace s₀ inp (a + (k + 1))).ldr = XilinxLoader.step (trace s₀ inp (a + k)).ldr
          ((trace s₀ inp (a + k)).loaderIn (inp (a + k))) := rfl
      have hnext := hstate (k + 1) hk
      rw [hstep] at hnext ⊢
      rcases ih (Nat.le_of_succ_le hk) with hw | ⟨hshift, hleft⟩
      · exact .inl ((waiting_step hrun hw).resolve_right hnext)
      · rcases shiftsEntry_step (c := c) hrun (by rw [← hdiv]; rfl) hshift hnext with hw | ⟨hshift', hlt⟩
        · exact .inl hw
        · exact .inr ⟨hshift', by omega⟩
  rcases hrank n (Nat.le_refl n) with hw | ⟨hshift, hleft⟩
  · exact hw
  · have := hshift.entryLeft_pos (c := c)
    omega

/-! ## The deadlock -/

/-- The host still has one of its `words` entries to push, the FIFO is full, and the loader
reads it no more until the host writes EXIT or SWRST. -/
def Deadlock (s₀ : HostPath F) (inp : ℕ → HostIn) (words t : ℕ) : Prop :=
  pushed inp t < words ∧ F.wrFull (trace s₀ inp t).fifo = true ∧ ReadsNoMore s₀ inp t

/-- The host has written SWRST before cycle `t`. -/
def AfterReset (inp : ℕ → HostIn) (t : ℕ) : Prop := ∃ e, e < t ∧ (inp e).csrSwrst = true

/-- Whenever the loader gives up a load within the first `n` cycles, what it has not taken
fits into the FIFO. -/
def GivesUpInTime (s₀ : HostPath F) (inp : ℕ → HostIn) (words n : ℕ) : Prop :=
  ∀ u, u < n → AfterReset inp u → GivesUp (trace s₀ inp u) (inp u) →
    fill (trace s₀ inp u) + (words - pushed inp u) ≤ 256

theorem no_deadlock_of_inTime {s₀ : HostPath F} {inp : ℕ → HostIn} {words n t : ℕ}
    (htime : GivesUpInTime s₀ inp words n) (htn : t ≤ n) (hreset : AfterReset inp t) :
    ¬ Deadlock s₀ inp words t := by
  rintro ⟨hmore, hfull, hstuck⟩
  have hfill : 256 ≤ fill (trace s₀ inp t) := wrFull_iff.mp hfull
  have hne : F.contents (trace s₀ inp t).fifo ≠ [] := by
    intro hnil
    simp [fill, hnil] at hfill
  obtain ⟨e, het, hswrst⟩ := hreset
  have hidle : (trace s₀ inp (e + 1)).ldr.state = .idle := XilinxLoader.idle_of_swrst hswrst
  obtain ⟨u, heu, hut, hgives⟩ := gaveUp_of_gotDone het (by rw [hidle]; decide)
    ((readsNoMore_iff hne).mp hstuck)
  have hle := htime u (Nat.lt_of_lt_of_le hut htn) ⟨e, heu, hswrst⟩ hgives
  have hgrow := @fill_add_pushed_le _ s₀ inp _ _ (Nat.le_of_lt hut)
  omega

end Svec.Loader.Stuck
