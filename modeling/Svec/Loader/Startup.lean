/-
  Loader/Startup.lean --- the clock pulses that start the FPGA.

  After DONE the loader stops in `GOT_DONE`, and only EXIT makes it give the FPGA
  the clock pulses with which it starts.  The first half says that DONE stops the
  clock after at most one more pulse; the second when EXIT really brings the
  pulses.  A configuration that ends in `WAIT_DONE` goes to `IDLE`, where EXIT is
  not looked at.
-/
import Svec.Loader.Moves

set_option autoImplicit false

namespace Svec.Loader.Startup

open Svec.Data Svec.Sync Svec.Hdl Svec.Loader
open Svec.Hdl.XilinxLoader (Regs In State cStartupCycles)

/-- The FPGA is being started. -/
def Starting (r : Regs) : Prop := r.state = .startupCclk0 ∨ r.state = .startupCclk1

instance (r : Regs) : Decidable (Starting r) := inferInstanceAs (Decidable (_ ∨ _))

/-! ## DONE stops the clock -/

/-- The edge that is already under way. -/
def pendingEdge (r : Regs) : ℕ := if r.state = .clockEdge then 1 else 0

/-- With DONE high and no EXIT a rising edge uses up the pending one, and none gets pending. -/
theorem edge_step {r : Regs} {i : In} (hs : ¬ Starting r) (hrun : i.Running)
    (hdone : i.doneSynced = true) (hexit : i.csrStartup = false)
    (hstart : ¬ (r.state = .idle ∧ i.csrStart = true)) :
    ¬ Starting (XilinxLoader.step r i) ∧
      (if Rises r (XilinxLoader.step r i) then 1 else 0) + pendingEdge (XilinxLoader.step r i) ≤
        pendingEdge r := by
  have hkeep : ∀ {st : State} {d e p : Bool},
      Drives (XilinxLoader.step r i) st d e p r.xlxCclk ∨ Drives (XilinxLoader.step r i) st d e p false →
      st ≠ .startupCclk0 → st ≠ .startupCclk1 → (st = .clockEdge → r.state = .clockEdge) →
      ¬ Starting (XilinxLoader.step r i) ∧
        (if Rises r (XilinxLoader.step r i) then 1 else 0) + pendingEdge (XilinxLoader.step r i) ≤
          pendingEdge r := by
    intro st d e p out h0 h1 hce
    have hst : (XilinxLoader.step r i).state = st := out.elim Drives.state Drives.state
    have hno : ¬ Rises r (XilinxLoader.step r i) :=
      out.elim (fun h => not_rises_of_same h.cclk) fun h => not_rises_of_low h.cclk
    refine ⟨fun h => ?_, ?_⟩
    · rw [Starting, hst] at h
      exact h.elim h0 h1
    · rw [if_neg hno, pendingEdge, pendingEdge, hst, Nat.zero_add]
      by_cases hc : st = .clockEdge
      · rw [if_pos hc, if_pos (hce hc)]
      · rw [if_neg hc]
        exact Nat.zero_le _
  cases moves r i with
  | reset hr _ => exact absurd hr hrun.not_reset
  | start _ hs' h _ _ => exact absurd ⟨hs', h⟩ hstart
  | rest _ _ _ out => exact hkeep (.inr out) (by decide) (by decide) (by simp)
  | extend _ _ _ _ out => exact hkeep (.inl out) (by decide) (by decide) (by simp)
  | extended _ _ _ _ out => exact hkeep (.inl out) (by decide) (by decide) (by simp)
  | initWait _ _ _ _ _ out => exact hkeep (.inl out) (by decide) (by decide) (by simp)
  | initTimeout _ _ _ _ out => exact hkeep (.inl out) (by decide) (by decide) (by simp)
  | initLow _ _ _ _ out => exact hkeep (.inl out) (by decide) (by decide) (by simp)
  | initLate _ _ _ _ out => exact hkeep (.inl out) (by decide) (by decide) (by simp)
  | init2Wait _ _ _ out => exact hkeep (.inl out) (by decide) (by decide) (by simp)
  | initHigh _ _ _ out => exact hkeep (.inl out) (by decide) (by decide) (by simp)
  | fifoEmpty _ _ _ out => exact hkeep (.inr out) (by decide) (by decide) (by simp)
  | fifoRead _ _ _ out => exact hkeep (.inr out) (by decide) (by decide) (by simp)
  | hold _ _ _ _ out => exact hkeep (.inl out) (fun h => hs (.inl h)) (fun h => hs (.inr h)) id
  | entry _ _ _ out => exact hkeep (.inl out) (by decide) (by decide) (by simp)
  | bit _ _ _ hd _ =>
    rw [hdone] at hd
    exact absurd hd (by decide)
  | gotDone _ _ _ _ out => exact hkeep (.inr out) (by decide) (by decide) (by simp)
  | edge _ hs' _ hst _ out =>
    -- The pending edge itself.
    refine ⟨fun h => ?_, ?_⟩
    · rw [Starting, out.state] at h
      rcases hst with rfl | rfl | rfl <;> simp at h
    · rw [pendingEdge, pendingEdge, hs', out.state]
      rcases hst with rfl | rfl | rfl <;> simp only [if_true] <;> split <;> decide
  | doneWait _ _ _ _ out => exact hkeep (.inl out) (by decide) (by decide) (by simp)
  | doneSeen _ _ _ _ out => exact hkeep (.inl out) (by decide) (by decide) (by simp)
  | doneTimeout _ _ _ out => exact hkeep (.inl out) (by decide) (by decide) (by simp)
  | exitWait _ _ _ out => exact hkeep (.inl out) (by decide) (by decide) (by simp)
  | exit _ _ h _ _ =>
    rw [hexit] at h
    exact absurd h (by decide)
  | startupLow _ hs' _ _ _ => exact absurd (.inl hs') hs
  | startupHigh _ hs' _ _ _ => exact absurd (.inr hs') hs

/-- Once DONE is high for good, CCLK rises at most once more before EXIT. -/
theorem one_edge_after_done (s : Regs) (inp : ℕ → In) (u n : ℕ) (hs : ¬ Starting (loader s inp u))
    (hdone : ∀ k, u ≤ k → k < u + n → (inp k).doneSynced = true)
    (hrun : ∀ k, u ≤ k → k < u + n → (inp k).Running)
    (hexit : ∀ k, u ≤ k → k < u + n → (inp k).csrStartup = false)
    (hstart : ∀ k, u ≤ k → k < u + n → ¬ ((loader s inp k).state = .idle ∧ (inp k).csrStart = true)) :
    risingEdges s inp u n ≤ 1 := by
  have hbound : ∀ m, m ≤ n → ¬ Starting (loader s inp (u + m)) ∧
      risingEdges s inp u m + pendingEdge (loader s inp (u + m)) ≤ pendingEdge (loader s inp u) := by
    intro m
    induction m with
    | zero => exact fun _ => ⟨hs, Nat.le_of_eq (Nat.zero_add _)⟩
    | succ m ih =>
      intro hm
      obtain ⟨hsm, hle⟩ := ih (Nat.le_of_succ_le hm)
      obtain ⟨hs', hstep⟩ := edge_step hsm (hrun _ (by omega) (by omega)) (hdone _ (by omega) (by omega))
        (hexit _ (by omega) (by omega)) (hstart _ (by omega) (by omega))
      refine ⟨hs', ?_⟩
      rw [← loader_succ] at hstep
      rw [risingEdges, ← Nat.add_assoc]
      omega
  have hlast := (hbound n (Nat.le_refl n)).2
  have hone : pendingEdge (loader s inp u) ≤ 1 := by
    unfold pendingEdge
    split <;> decide
  omega

theorem shortLoad_running {last : Bool} {n t : ℕ} (ht : 0 < t) : (shortLoad last n t).Running :=
  ⟨decide_eq_true ht, rfl⟩

/-- DONE comes after the first bit was put out: one edge, and no more. -/
theorem one_edge_after_done_short : risingEdges default (shortLoad false 1008) 1008 100 ≤ 1 :=
  one_edge_after_done default (shortLoad false 1008) 1008 100 (by decide +kernel)
    (fun _ hk _ => decide_eq_true hk) (fun k hk _ => shortLoad_running (by omega)) (fun _ _ _ => rfl)
    (fun k hk _ h => by
      have hstart : decide (k = 1) = true := h.2
      rw [decide_eq_true_iff] at hstart
      omega)

/-! ## EXIT starts the FPGA -/

/-- What holds in every cycle of a run after a reset: while a configuration is under way the
flags are both clear or both set, and a start-up counts its pulses. -/
structure Sound (r : Regs) : Prop where
  flags : r.state ≠ .idle → r.state ≠ .gotDone → ¬ Starting r → r.csrDone = r.csrError
  count : Starting r → r.startupCount.toNat ≤ cStartupCycles.toNat
  low : r.state = .startupCclk1 → r.xlxCclk = false

/-- A cycle that ends outside of the start-up. -/
theorem sound_outside {r' : Regs} {st : State} {d e p c : Bool} (out : Drives r' st d e p c)
    (h0 : st ≠ .startupCclk0) (h1 : st ≠ .startupCclk1)
    (hflags : st = .idle ∨ st = .gotDone ∨ d = e) : Sound r' where
  flags hidle hgot _ := by
    rw [out.state] at hidle hgot
    rw [out.done, out.error]
    exact (hflags.resolve_left hidle).resolve_left hgot
  count h := by
    rw [Starting, out.state] at h
    exact absurd h (fun h => h.elim h0 h1)
  low h := absurd (out.state ▸ h) h1

/-- The start-up counter counts on. -/
theorem count_succ {c : BitVec 21} (hle : c.toNat ≤ cStartupCycles.toNat) (hne : c ≠ cStartupCycles) :
    (c + 1#21).toNat = c.toNat + 1 ∧ (c + 1#21).toNat ≤ cStartupCycles.toNat := by
  have hbound : cStartupCycles.toNat = 1024 := rfl
  have hlt : c.toNat ≠ cStartupCycles.toNat := fun h => hne (BitVec.eq_of_toNat_eq h)
  have hsucc := add_one_toNat (x := c) (by omega)
  exact ⟨hsucc, by omega⟩

/-- The states between START and the end of the configuration. -/
def Midway (st : State) : Prop :=
  st ≠ .idle ∧ st ≠ .gotDone ∧ st ≠ .startupCclk0 ∧ st ≠ .startupCclk1

instance (st : State) : Decidable (Midway st) := inferInstanceAs (Decidable (_ ∧ _))

theorem sound_step {r : Regs} (h : Sound r) (i : In) : Sound (XilinxLoader.step r i) := by
  have hmid : ∀ {st st' : State} {p c : Bool}, r.state = st → Midway st →
      Drives (XilinxLoader.step r i) st' r.csrDone r.csrError p c → Midway st' →
      Sound (XilinxLoader.step r i) := by
    rintro st st' p c rfl ⟨hi, hg, h0, h1⟩ out ⟨-, -, h0', h1'⟩
    exact sound_outside out h0' h1' (.inr (.inr (h.flags hi hg fun hst => hst.elim h0 h1)))
  cases moves r i with
  | reset _ out => exact sound_outside out (by decide) (by decide) (.inl rfl)
  | start _ _ _ _ out => exact sound_outside out (by decide) (by decide) (.inr (.inr rfl))
  | rest _ _ _ out => exact sound_outside out (by decide) (by decide) (.inl rfl)
  | extend _ hs _ _ out => exact hmid hs (by decide) out (by decide)
  | extended _ hs _ _ out => exact hmid hs (by decide) out (by decide)
  | initWait _ hs _ _ _ out => exact hmid hs (by decide) out (by decide)
  | initTimeout _ _ _ _ out => exact sound_outside out (by decide) (by decide) (.inl rfl)
  | initLow _ hs _ _ out => exact hmid hs (by decide) out (by decide)
  | initLate _ _ _ _ out => exact sound_outside out (by decide) (by decide) (.inr (.inr rfl))
  | init2Wait _ hs _ out => exact hmid hs (by decide) out (by decide)
  | initHigh _ hs _ out => exact hmid hs (by decide) out (by decide)
  | fifoEmpty _ hs _ out => exact hmid hs (by decide) out (by decide)
  | fifoRead _ hs _ out => exact hmid hs (by decide) out (by decide)
  | hold _ _ _ hn out =>
    constructor
    · rw [Starting, out.state, out.done, out.error]
      exact h.flags
    · rw [Starting, out.state, hn]
      exact h.count
    · rw [out.state, out.cclk]
      exact h.low
  | entry _ hs _ out => exact hmid hs (by decide) out (by decide)
  | bit _ hs _ _ out => exact hmid hs (by decide) out (by decide)
  | gotDone _ _ _ _ out => exact sound_outside out (by decide) (by decide) (.inr (.inl rfl))
  | edge _ hs _ hst _ out =>
    refine hmid hs (by decide) out ?_
    rcases hst with rfl | rfl | rfl <;> decide
  | doneWait _ hs _ _ out => exact hmid hs (by decide) out (by decide)
  | doneSeen _ _ _ _ out => exact sound_outside out (by decide) (by decide) (.inl rfl)
  | doneTimeout _ _ _ out => exact sound_outside out (by decide) (by decide) (.inl rfl)
  | exitWait _ _ _ out => exact sound_outside out (by decide) (by decide) (.inr (.inl rfl))
  | exit _ _ _ hn out =>
    refine ⟨fun _ _ hno => absurd (.inl out.state) hno, fun _ => ?_, fun hs => ?_⟩
    · rw [hn]
      exact Nat.zero_le _
    · rw [out.state] at hs
      exact absurd hs (by decide)
  | startupLow _ hs _ hn out =>
    refine ⟨fun _ _ hno => absurd (.inr out.state) hno, fun _ => ?_, fun _ => out.cclk⟩
    rw [hn]
    exact h.count (.inl hs)
  | startupHigh _ hs _ hn out =>
    by_cases hlast : r.startupCount = cStartupCycles
    · rw [if_pos hlast] at out
      exact sound_outside out (by decide) (by decide) (.inl rfl)
    · rw [if_neg hlast] at out
      refine ⟨fun _ _ hno => absurd (.inl out.state) hno, fun _ => ?_, fun hs' => ?_⟩
      · rw [hn]
        exact (count_succ (h.count (.inr hs)) hlast).2
      · rw [out.state] at hs'
        exact absurd hs' (by decide)

/-- A state that a run reaches after a reset. -/
def Reached (r : Regs) : Prop :=
  ∃ (s : Regs) (inp : ℕ → In) (t : ℕ), (inp 0).rstN = false ∧ 0 < t ∧ r = loader s inp t

theorem Reached.sound {r : Regs} (h : Reached r) : Sound r := by
  obtain ⟨s, inp, t, h0, ht, rfl⟩ := h
  have hreset : Sound (loader s inp 1) :=
    sound_outside (reset_drives h0) (by decide) (by decide) (.inl rfl)
  exact invariant_since (I := fun _ (r : Regs) => Sound r) hreset ht
    fun k _ _ h => sound_step h (inp k)

theorem sound_run {r : Regs} (h : Sound r) (inp : ℕ → In) (n : ℕ) : Sound (loader r inp n) :=
  invariant_run (A := fun _ _ => True) h (fun _ i h _ => sound_step h i) (fun _ => trivial) n

/-- A cycle of the start-up counts its edge; the one with the last edge ends in `IDLE`. -/
theorem startup_step {r : Regs} {i : In} (h : Sound r) (hst : Starting r) (hrun : i.Running) :
    (Starting (XilinxLoader.step r i) ∧ (XilinxLoader.step r i).startupCount.toNat =
        r.startupCount.toNat + if Rises r (XilinxLoader.step r i) then 1 else 0) ∨
      ((XilinxLoader.step r i).state = .idle ∧ Rises r (XilinxLoader.step r i) ∧
        r.startupCount = cStartupCycles) := by
  cases moves r i with
  | reset hr _ => exact absurd hr hrun.not_reset
  | hold _ _ _ hn out =>
    left
    rw [if_neg (not_rises_of_same out.cclk), hn, Starting, out.state]
    exact ⟨hst, rfl⟩
  | startupLow _ _ _ hn out =>
    left
    rw [if_neg (not_rises_of_low out.cclk), hn]
    exact ⟨.inr out.state, rfl⟩
  | startupHigh _ hs _ hn out =>
    have hrise : Rises r (XilinxLoader.step r i) := ⟨h.low hs, out.cclk⟩
    by_cases hlast : r.startupCount = cStartupCycles
    · rw [if_pos hlast] at out
      exact .inr ⟨out.state, hrise, hlast⟩
    · rw [if_neg hlast] at out
      rw [if_pos hrise, hn]
      exact .inl ⟨.inl out.state, (count_succ (h.count hst) hlast).1⟩
  | _ _ hs => rcases hst with hst | hst <;> simp [hst] at hs

section Run

variable {r : Regs} {inp : ℕ → In} {c a : ℕ}

/-- The start-up goes on until all its edges are made. -/
theorem startup_run (h : Sound r) (hst : Starting (loader r inp a))
    (hcount : (loader r inp a).startupCount.toNat = c + risingEdges r inp 0 a) {n : ℕ} (hn : a ≤ n)
    (hrun : ∀ k, a ≤ k → k < n → (inp k).Running) :
    (Starting (loader r inp n) ∧
        (loader r inp n).startupCount.toNat = c + risingEdges r inp 0 n) ∨
      ∃ m, a < m ∧ m ≤ n ∧ (loader r inp m).state = .idle ∧
        c + risingEdges r inp 0 m = cStartupCycles.toNat + 1 := by
  induction hn with
  | refl => exact .inl ⟨hst, hcount⟩
  | @step n hn ih =>
    rcases ih fun k hk hkn => hrun k hk (Nat.lt_succ_of_lt hkn) with ⟨hsn, hcn⟩ | ⟨m, hm, hmn, hend⟩
    swap
    · exact .inr ⟨m, hm, Nat.le_succ_of_le hmn, hend⟩
    have hedges : risingEdges r inp 0 (n + 1) = risingEdges r inp 0 n +
        if Rises (loader r inp n) (loader r inp (n + 1)) then 1 else 0 := by
      rw [risingEdges, Nat.zero_add]
    rcases startup_step (sound_run h inp n) hsn (hrun n hn (Nat.lt_succ_self n)) with
      ⟨hs', hc'⟩ | ⟨hidle, hrise, hlast⟩
    · left
      refine ⟨hs', ?_⟩
      rw [← loader_succ] at hc'
      rw [hc', hcn, hedges]
      omega
    · right
      refine ⟨n + 1, Nat.lt_succ_of_le hn, Nat.le_refl _, hidle, ?_⟩
      rw [← loader_succ] at hrise
      rw [hedges, if_pos hrise, ← Nat.add_assoc, ← hcn, hlast]

/-- Half periods of CCLK that the start-up has still to make. -/
def startupRank (r : Regs) : ℕ :=
  2 * (cStartupCycles.toNat + 1 - r.startupCount.toNat) + if r.state = .startupCclk0 then 1 else 0

theorem startupRank_pos (h : Sound r) (hst : Starting r) : 0 < startupRank r := by
  have hle := h.count hst
  unfold startupRank
  omega

/-- Every tick of the start-up takes half a period off. -/
theorem startupRank_step {i : In} (h : Sound r) (hst : Starting r)
    (hst' : Starting (XilinxLoader.step r i)) (hrun : i.Running) :
    startupRank (XilinxLoader.step r i) ≤ startupRank r ∧
      (r.tick = true → startupRank (XilinxLoader.step r i) < startupRank r) := by
  have hle := h.count hst
  unfold startupRank
  cases moves r i with
  | reset hr _ => exact absurd hr hrun.not_reset
  | hold _ _ ht hn out =>
    rw [hn, out.state, ht]
    exact ⟨Nat.le_refl _, fun h => absurd h (by decide)⟩
  | startupLow _ hs _ hn out =>
    rw [hn, out.state, hs]
    exact ⟨by simp, fun _ => by simp⟩
  | startupHigh _ hs _ hn out =>
    by_cases hlast : r.startupCount = cStartupCycles
    · rw [if_pos hlast] at out
      rw [Starting, out.state] at hst'
      exact absurd hst' (by decide)
    · rw [if_neg hlast] at out
      have hsucc := count_succ hle hlast
      rw [← hn] at hsucc
      rw [out.state, hs]
      simp only [if_true]
      rw [if_neg (by decide)]
      exact ⟨by omega, fun _ => by omega⟩
  | _ _ hs => rcases hst with hst | hst <;> simp [hst] at hs

/-- With a steady clock divider the start-up comes to its end. -/
theorem startup_ends (h : Sound r) (hst : Starting (loader r inp a))
    (hcount : (loader r inp a).startupCount.toNat = c + risingEdges r inp 0 a)
    (hrun : ∀ k, (inp k).Running) {d : BitVec 7} (hdiv : ∀ k, (inp k).csrClkDiv = d) :
    ∃ m, a < m ∧ (loader r inp m).state = .idle ∧
      c + risingEdges r inp 0 m = cStartupCycles.toNat + 1 := by
  by_contra hno
  have hgoes : ∀ n, a ≤ n → Starting (loader r inp n) ∧
      (loader r inp n).startupCount.toNat = c + risingEdges r inp 0 n := by
    intro n hn
    rcases startup_run h hst hcount hn fun k _ _ => hrun k with hgo | ⟨m, hm, -, hend⟩
    · exact hgo
    · exact absurd ⟨m, hm, hend⟩ hno
  have hstep : ∀ k, startupRank (loader r inp (a + (k + 1))) ≤ startupRank (loader r inp (a + k)) ∧
      ((loader r inp (a + k)).tick = true →
        startupRank (loader r inp (a + (k + 1))) < startupRank (loader r inp (a + k))) :=
    fun k => startupRank_step (sound_run h inp _) (hgoes _ (Nat.le_add_right _ _)).1
      (hgoes (a + (k + 1)) (Nat.le_add_right _ _)).1 (hrun _)
  obtain ⟨T, hT⟩ := eventually_zero (m := fun k => startupRank (loader r inp (a + k)))
    (fun k => (hstep k).1) fun k _ => by
      obtain ⟨u, hku, -, htick⟩ := XilinxLoader.tick_recurs (r := fun k => loader r inp (a + k))
        (i := fun k => inp (a + k)) (fun _ => rfl) (fun k => (hrun _).1) (fun k => hdiv _) k
      exact ⟨u, Nat.le_of_lt hku, Nat.lt_of_lt_of_le ((hstep u).2 htick)
        (rank_le_of_le (m := fun k => startupRank (loader r inp (a + k))) (fun k => (hstep k).1)
          (Nat.le_of_lt hku))⟩
  have hpos := startupRank_pos (sound_run h inp (a + T)) (hgoes _ (Nat.le_add_right _ _)).1
  have hzero := hT T (Nat.le_refl T)
  omega

end Run

/-- What EXIT is to bring about in cycle 0 of the run: the pulses come before the loader is
back in `IDLE`, and with a steady clock divider it does get back. -/
structure StartsUp (r : Regs) (inp : ℕ → In) : Prop where
  pulses : ∀ n, 0 < n → (∀ k, k < n → (inp k).Running) → (loader r inp n).state = .idle →
    cStartupCycles.toNat ≤ risingEdges r inp 0 n
  returns : (∀ k, (inp k).Running) → (∀ k, (inp k).csrClkDiv = (inp 0).csrClkDiv) →
    ∃ n, 0 < n ∧ (loader r inp n).state = .idle

/-- A start-up with at most one pulse behind it makes enough of them. -/
theorem startsUp_of_starting {r : Regs} {inp : ℕ → In} {c a : ℕ} (h : Sound r)
    (hst : Starting (loader r inp a))
    (hcount : (loader r inp a).startupCount.toNat = c + risingEdges r inp 0 a) (hc : c ≤ 1)
    (hbefore : ∀ n, 0 < n → n < a → (loader r inp n).state ≠ .idle) : StartsUp r inp where
  pulses n hn hrun hidle := by
    have hle : a ≤ n := by
      by_contra hlt
      exact hbefore n hn (by omega) hidle
    rcases startup_run h hst hcount hle fun k _ hk => hrun k hk with ⟨hgo, -⟩ | ⟨m, -, hm, -, hend⟩
    · rw [Starting, hidle] at hgo
      exact absurd hgo (by decide)
    · have hmono := risingEdges_mono r inp 0 hm
      omega
  returns hrun hdiv := by
    obtain ⟨m, hm, hidle, -⟩ := startup_ends h hst hcount hrun hdiv
    exact ⟨m, by omega, hidle⟩

/-- The end of a load with one byte, marked as the last one: `WAIT_DONE` saw DONE. -/
def afterWaitDone : Regs := loader default (shortLoad true 1023) 1024

/-- After `WAIT_DONE` the loader is in `IDLE`, reports success and ignores EXIT. -/
theorem exit_ignored :
    ¬ ∀ (r : Regs) (i : In), Reached r → r.csrDone = true → r.csrError = false → i.Running →
      i.csrStartup = true → i.csrStart = false → ∀ inp, inp 0 = i → StartsUp r inp := by
  intro hall
  let i : In := { shortLoad true 1023 1024 with csrStartup := true }
  -- The run to the end of `WAIT_DONE` is evaluated once, for the four facts together.
  obtain ⟨hd, he, hidle, hnone⟩ : afterWaitDone.csrDone = true ∧ afterWaitDone.csrError = false ∧
      (loader afterWaitDone (fun _ => i) 1).state = .idle ∧
      risingEdges afterWaitDone (fun _ => i) 0 1 = 0 := by decide +kernel
  have hstarts := hall afterWaitDone i ⟨default, shortLoad true 1023, 1024, rfl, by decide, rfl⟩
    hd he ⟨rfl, rfl⟩ rfl rfl (fun _ => i) rfl
  have hedges := hstarts.pulses 1 (by decide) (fun _ _ => ⟨rfl, rfl⟩) hidle
  rw [hnone] at hedges
  exact absurd hedges (by decide)

/-- After a reported success EXIT starts the FPGA, whatever comes later, exactly if it finds
the loader in `GOT_DONE`, or in a start-up with at most one pulse behind it. -/
theorem exit_starts_iff (r : Regs) (i : In) (hr : Reached r) (hd : r.csrDone = true)
    (he : r.csrError = false) (hrun : i.Running) (hexit : i.csrStartup = true)
    (hstart : i.csrStart = false) :
    (∀ inp, inp 0 = i → StartsUp r inp) ↔
      r.state = .gotDone ∨ (Starting r ∧ r.startupCount.toNat ≤ 1) := by
  have hsound := hr.sound
  constructor
  · intro hall
    have hstarts := hall (fun _ => i) rfl
    by_cases hgot : r.state = .gotDone
    · exact .inl hgot
    right
    by_cases hst : Starting r
    · -- The edges of the whole start-up are those that its counter has not counted yet.
      have hcount : (loader r (fun _ => i) 0).startupCount.toNat =
          r.startupCount.toNat + risingEdges r (fun _ => i) 0 0 := rfl
      have hbegin : Starting (loader r (fun _ => i) 0) := hst
      obtain ⟨m, hm, hidle, hend⟩ :=
        startup_ends hsound hbegin hcount (fun _ => hrun) (fun _ => rfl)
      have hedges := hstarts.pulses m hm (fun _ _ => hrun) hidle
      exact ⟨hst, by omega⟩
    · exfalso
      have hidle : r.state = .idle := by
        by_contra hidle
        have hsame := hsound.flags hidle hgot hst
        rw [hd, he] at hsame
        exact absurd hsame (by decide)
      have hedges := hstarts.pulses 1 Nat.zero_lt_one (fun _ _ => hrun)
        (XilinxLoader.idle_step hrun hstart hidle)
      have hle : risingEdges r (fun _ => i) 0 1 ≤ 1 := by
        simp only [risingEdges]
        split <;> omega
      have hbound : cStartupCycles.toNat = 1024 := rfl
      omega
  · rintro (hgot | ⟨hst, hc⟩) inp rfl
    · cases moves r (inp 0) with
      | exit _ _ _ hn out =>
        refine startsUp_of_starting (a := 1) (c := 0) hsound (.inl out.state) ?_ (by omega)
          fun n _ _ => by omega
        have hno : ¬ Rises (loader r inp 0) (loader r inp 1) := not_rises_of_same out.cclk
        have hcount : (loader r inp 1).startupCount = 0#21 := hn
        rw [hcount, risingEdges, if_neg hno]
        rfl
      | exitWait _ _ hno _ =>
        rw [hexit] at hno
        exact absurd hno (by decide)
      | reset hreset _ => exact absurd hreset hrun.not_reset
      | _ _ hs => simp [hgot] at hs
    · exact startsUp_of_starting (a := 0) hsound hst rfl hc fun n _ hn => absurd hn (Nat.not_lt_zero n)

/-- EXIT after a load that stopped in `GOT_DONE`. -/
theorem exit_starts_iff_short :
    (∀ inp, inp 0 = { shortLoad false 0 1009 with csrStartup := true } →
        StartsUp (loader default (shortLoad false 0) 1009) inp) ↔
      (loader default (shortLoad false 0) 1009).state = .gotDone ∨
        (Starting (loader default (shortLoad false 0) 1009) ∧
          (loader default (shortLoad false 0) 1009).startupCount.toNat ≤ 1) := by
  obtain ⟨hd, he⟩ : (loader default (shortLoad false 0) 1009).csrDone = true ∧
      (loader default (shortLoad false 0) 1009).csrError = false := by decide +kernel
  exact exit_starts_iff _ { shortLoad false 0 1009 with csrStartup := true }
    ⟨default, shortLoad false 0, 1009, rfl, by decide, rfl⟩ hd he ⟨rfl, rfl⟩ rfl rfl

end Svec.Loader.Startup
