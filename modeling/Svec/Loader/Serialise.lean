/-
  Loader/Serialise.lean --- what the loader clocks into the FPGA.

  Between `READ_FIFO` and the last entry the loader is a serialiser: each entry
  is shifted out most significant bit first, one bit per CCLK rising edge, paced
  by the free-running tick.  The work is spread over four states, so the proof
  carries one conservation law through all of them: the bits already sampled, the
  bits still inside the loader and the bits still in the FIFO are always the bits
  of the entries, in order.  A rank that drops at every tick and at every FIFO
  read then shows that the last bit is reached.
-/
import Svec.Sync.Machine
import Svec.Hdl.Fifo
import Svec.Hdl.XilinxLoader
import Svec.Loader.Moves

set_option autoImplicit false

namespace Svec.Loader.Serialise

open Svec.Data Svec.Sync Svec.Hdl
open Svec.Hdl.XilinxLoader (Regs In State csrRd orderedData pMainFsm)

/-! ## The loader and the entries it is fed -/

/-- The loader, the entries still to come and the entry on the FIFO's read port. -/
structure Feed where
  ldr : Regs
  queue : List FifoEntry
  cur : FifoEntry

/-- What is free in a cycle of a configuration: whether the FIFO is empty although
entries are still to come, and the inputs that only matter in other states. -/
structure FeedIn where
  stall : Bool
  startup : Bool
  initB : Bool

/-- `csr_empty_i`. -/
def Feed.empty (s : Feed) (i : FeedIn) : Bool := i.stall || s.queue.isEmpty

/-- The loader's inputs: no reset, no START, DONE low, the read port of the FIFO. -/
def Feed.loaderIn (msbf : Bool) (div : BitVec 7) (s : Feed) (i : FeedIn) : In where
  rstN := true
  csrSwrst := false
  csrStart := false
  csrClkDiv := div
  csrData := s.cur.xdata
  csrDsize := s.cur.xsize
  csrMsbf := msbf
  csrDlast := s.cur.xlast
  csrEmpty := s.empty i
  csrStartup := i.startup
  initBSynced := i.initB
  doneSynced := false

/-- The FIFO presents a popped entry on the cycle after the read request. -/
def Feed.step (msbf : Bool) (div : BitVec 7) (s : Feed) (i : FeedIn) : Feed where
  ldr := XilinxLoader.step s.ldr (s.loaderIn msbf div i)
  queue := if csrRd s.ldr (s.empty i) then s.queue.tail else s.queue
  cur := if csrRd s.ldr (s.empty i) then s.queue.headD s.cur else s.cur

/-- What a step clocks into the FPGA: DIN, if the step raises CCLK. -/
def clocked (r r' : Regs) : List Bool := if !r.xlxCclk && r'.xlxCclk then [r'.xlxDin] else []

/-- DIN as sampled at the CCLK rising edges among the first `n` clock edges of a run. -/
def cclkSamples (r : ℕ → Regs) : ℕ → List Bool := collect fun u => clocked (r u) (r (u + 1))

variable {msbf : Bool} {div : BitVec 7}

/-! ## Conservation of bits -/

/-- The bits of an entry are the top bits of the word `READ_FIFO2` stores. -/
theorem bits_eq_topBits (div : BitVec 7) (s : Feed) (i : FeedIn) :
    s.cur.bits msbf =
      topBits (8 * (s.cur.xsize.toNat + 1)) (orderedData (s.loaderIn msbf div i)) := by
  have hk : s.cur.xsize.toNat + 1 ≤ 4 := by have := s.cur.xsize.isLt; omega
  rw [topBits_eq_beBytes _ hk]
  unfold FifoEntry.bits FifoEntry.bytes orderedData Feed.loaderIn
  cases msbf
  · simp [beBytes_byteSwap]
  · simp

/-- The bits inside the loader that no CCLK edge has sampled yet. -/
def Feed.pending (msbf : Bool) (s : Feed) : List Bool :=
  match s.ldr.state with
  | .readFifo2 => s.cur.bits msbf
  | .outputBit => topBits (s.ldr.bitCounter.toNat + 1) s.ldr.dData
  | .clockEdge => s.ldr.xlxDin :: topBits s.ldr.bitCounter.toNat s.ldr.dData
  | _ => []

/-- Every bit that is still to be sampled. -/
def Feed.remaining (msbf : Bool) (s : Feed) : List Bool :=
  s.pending msbf ++ s.queue.flatMap (FifoEntry.bits msbf)

/-- Only the final entry carries the last flag. -/
def LastOnlyFinal (entries : List FifoEntry) : Prop := ∀ e ∈ entries.dropLast, e.xlast = false

theorem LastOnlyFinal.tail {e : FifoEntry} {q : List FifoEntry} (h : LastOnlyFinal (e :: q)) :
    LastOnlyFinal q := by
  intro x hx
  cases q with
  | nil => simp at hx
  | cons y ys => exact h x (List.mem_cons_of_mem _ hx)

theorem LastOnlyFinal.nil_of_last {e : FifoEntry} {q : List FifoEntry}
    (h : LastOnlyFinal (e :: q)) (hl : e.xlast = true) : q = [] := by
  cases q with
  | nil => rfl
  | cons y ys =>
    have := h e (List.mem_cons_self ..)
    simp [hl] at this

/-- The serialiser's control: a bit is clocked out from CCLK low, and an entry with the
last flag leaves nothing behind it. -/
def Feed.Serial (s : Feed) : Prop :=
  LastOnlyFinal s.queue ∧
  match s.ldr.state with
  | .readFifo => True
  | .readFifo2 => s.ldr.xlxCclk = false ∧ (s.cur.xlast = true → s.queue = [])
  | .outputBit => s.ldr.dLast = true → s.queue = []
  | .clockEdge => s.ldr.xlxCclk = false ∧ (s.ldr.dLast = true → s.queue = [])
  | .waitDone => s.queue = []
  | .idle => s.queue = []
  | _ => False

theorem bitCounter_load : ∀ z : BitVec 2, (z ++ 7#3).toNat + 1 = 8 * (z.toNat + 1) := by
  decide

/-- A cycle from `s` to `s'` keeps the control invariant and moves bits: it never drops,
repeats or reorders one. -/
def Conserves (msbf : Bool) (s s' : Feed) : Prop :=
  s'.Serial ∧ s.remaining msbf = clocked s.ldr s'.ldr ++ s'.remaining msbf

section Step

variable {s : Feed} {i : FeedIn}

theorem guard_loaderIn :
    (!(s.loaderIn msbf div i).rstN || (s.loaderIn msbf div i).csrSwrst) = false := rfl

theorem conserves_idle (hs : s.ldr.state = .idle) (h : s.Serial) :
    Conserves msbf s (s.step msbf div i) := by
  obtain ⟨-, hq⟩ := h
  rw [hs] at hq
  have hrd : csrRd s.ldr (s.empty i) = false := by simp [csrRd, Feed.empty, hq]
  have hstart : (s.loaderIn msbf div i).csrStart = false := rfl
  simp [Conserves, Feed.Serial, Feed.step, Feed.remaining, Feed.pending, clocked, pMainFsm,
    guard_loaderIn, hstart, hs, hrd, hq, LastOnlyFinal]

theorem conserves_waitDone (hs : s.ldr.state = .waitDone) (h : s.Serial) :
    Conserves msbf s (s.step msbf div i) := by
  obtain ⟨-, hq⟩ := h
  rw [hs] at hq
  have hrd : csrRd s.ldr (s.empty i) = false := by simp [csrRd, hs]
  have hdone : (s.loaderIn msbf div i).doneSynced = false := rfl
  by_cases ht : s.ldr.timeoutCounter = 0#21 <;>
    simp [Conserves, Feed.Serial, Feed.step, Feed.remaining, Feed.pending, clocked, pMainFsm,
      guard_loaderIn, hdone, hs, hrd, hq, ht, LastOnlyFinal]

theorem conserves_readFifo (hs : s.ldr.state = .readFifo) (h : s.Serial) :
    Conserves msbf s (s.step msbf div i) := by
  obtain ⟨hlast, -⟩ := h
  have hin : (s.loaderIn msbf div i).csrEmpty = s.empty i := rfl
  cases he : s.empty i with
  | true =>
    have hrd : csrRd s.ldr true = false := by simp [csrRd]
    simp [Conserves, Feed.Serial, Feed.step, Feed.remaining, Feed.pending, clocked, pMainFsm,
      guard_loaderIn, hs, hin, he, hrd, hlast]
  | false =>
    have hrd : csrRd s.ldr false = true := by simp [csrRd, hs]
    obtain ⟨e, q, hq⟩ : ∃ e q, s.queue = e :: q := by
      cases hq : s.queue with
      | nil => simp [Feed.empty, hq] at he
      | cons e q => exact ⟨e, q, rfl⟩
    rw [hq] at hlast
    refine ⟨⟨?_, ?_⟩, ?_⟩
    · simpa [Feed.step, he, hrd, hq] using hlast.tail
    · simp [Feed.step, pMainFsm, guard_loaderIn, hs, hin, he, hrd, hq]
      exact hlast.nil_of_last
    · simp [Feed.step, Feed.remaining, Feed.pending, clocked, pMainFsm, guard_loaderIn, hs, hin, he,
        hrd, hq]

theorem conserves_readFifo2 (hs : s.ldr.state = .readFifo2) (h : s.Serial) :
    Conserves msbf s (s.step msbf div i) := by
  obtain ⟨hlast, hctl⟩ := h
  rw [hs] at hctl
  have hrd : csrRd s.ldr (s.empty i) = false := by simp [csrRd, hs]
  have hsize : (s.loaderIn msbf div i).csrDsize = s.cur.xsize := rfl
  have hflag : (s.loaderIn msbf div i).csrDlast = s.cur.xlast := rfl
  cases ht : s.ldr.tick with
  | false =>
    simp [Conserves, Feed.Serial, Feed.step, Feed.remaining, Feed.pending, clocked, pMainFsm,
      guard_loaderIn, hs, hrd, ht, hlast, hctl.1]
    exact hctl.2
  | true =>
    refine ⟨⟨by simpa [Feed.step, hrd] using hlast, ?_⟩, ?_⟩
    · simp [Feed.step, pMainFsm, guard_loaderIn, hs, hrd, ht, hflag]
      exact hctl.2
    · simp [Feed.step, Feed.remaining, Feed.pending, clocked, pMainFsm, guard_loaderIn, hs, hrd, ht,
        hctl.1, hsize, bits_eq_topBits div s i, ← bitCounter_load]

theorem conserves_outputBit (hs : s.ldr.state = .outputBit) (h : s.Serial) :
    Conserves msbf s (s.step msbf div i) := by
  obtain ⟨hlast, hctl⟩ := h
  rw [hs] at hctl
  have hrd : csrRd s.ldr (s.empty i) = false := by simp [csrRd, hs]
  have hdone : (s.loaderIn msbf div i).doneSynced = false := rfl
  cases ht : s.ldr.tick with
  | false =>
    simp [Conserves, Feed.Serial, Feed.step, Feed.remaining, Feed.pending, clocked, pMainFsm,
      guard_loaderIn, hs, hrd, ht, hlast]
    exact hctl
  | true =>
    have hlt : s.ldr.bitCounter.toNat < 32 := s.ldr.bitCounter.isLt
    refine ⟨⟨by simpa [Feed.step, hrd] using hlast, ?_⟩, ?_⟩
    · simp [Feed.step, pMainFsm, guard_loaderIn, hs, hrd, ht, hdone]
      exact hctl
    · simp [Feed.step, Feed.remaining, Feed.pending, clocked, pMainFsm, guard_loaderIn, hs, hrd, ht,
        hdone, topBits_succ hlt]

theorem conserves_clockEdge (hs : s.ldr.state = .clockEdge) (h : s.Serial) :
    Conserves msbf s (s.step msbf div i) := by
  obtain ⟨hlast, hctl⟩ := h
  rw [hs] at hctl
  have hrd : csrRd s.ldr (s.empty i) = false := by simp [csrRd, hs]
  cases ht : s.ldr.tick with
  | false =>
    simp [Conserves, Feed.Serial, Feed.step, Feed.remaining, Feed.pending, clocked, pMainFsm,
      guard_loaderIn, hs, hrd, ht, hlast, hctl.1]
    exact hctl.2
  | true =>
    by_cases hb : s.ldr.bitCounter = 0#5
    · cases hd : s.ldr.dLast with
      | true =>
        simp [Conserves, Feed.Serial, Feed.step, Feed.remaining, Feed.pending, clocked, pMainFsm,
          guard_loaderIn, hs, hrd, ht, hb, hd, hctl.2 hd, hctl.1, LastOnlyFinal]
      | false =>
        simp [Conserves, Feed.Serial, Feed.step, Feed.remaining, Feed.pending, clocked, pMainFsm,
          guard_loaderIn, hs, hrd, ht, hb, hd, hlast, hctl.1]
    · refine ⟨⟨by simpa [Feed.step, hrd] using hlast, ?_⟩, ?_⟩
      · simp [Feed.step, pMainFsm, guard_loaderIn, hs, hrd, ht, hb]
        exact hctl.2
      · simp [Feed.step, Feed.remaining, Feed.pending, clocked, pMainFsm, guard_loaderIn, hs, hrd, ht,
          hb, hctl.1, ← sub_one_toNat hb, -BitVec.toNat_sub]

/-- One clock cycle of the serialiser conserves the bits. -/
theorem step_conserves (h : s.Serial) : Conserves msbf s (s.step msbf div i) := by
  cases hs : s.ldr.state
  case idle => exact conserves_idle hs h
  case waitDone => exact conserves_waitDone hs h
  case readFifo => exact conserves_readFifo hs h
  case readFifo2 => exact conserves_readFifo2 hs h
  case outputBit => exact conserves_outputBit hs h
  case clockEdge => exact conserves_clockEdge hs h
  all_goals exact absurd h.2 (by simp [hs])

end Step

/-! ## Progress -/

/-- Ticks and FIFO reads an entry still takes from the FIFO on. -/
def entryWork (e : FifoEntry) : ℕ := 2 * (e.xsize.toNat * 8 + 8) + 2

/-- Ticks and FIFO reads that are left. -/
def Feed.work (s : Feed) : ℕ :=
  match s.ldr.state with
  | .readFifo => (s.queue.map entryWork).sum
  | .readFifo2 => 2 * (s.cur.xsize.toNat * 8 + 8) + 1 + (s.queue.map entryWork).sum
  | .outputBit => 2 * (s.ldr.bitCounter.toNat + 1) + (s.queue.map entryWork).sum
  | .clockEdge => 2 * s.ldr.bitCounter.toNat + 1 + (s.queue.map entryWork).sum
  | _ => 0

/-- What the current state waits for: an entry in `READ_FIFO`, a tick elsewhere. -/
def Feed.ready (s : Feed) (i : FeedIn) : Bool :=
  match s.ldr.state with
  | .readFifo => !s.empty i
  | _ => s.ldr.tick

section Work

variable {s : Feed} {i : FeedIn}

/-- Outside of the four states there is nothing to do, and there will not be. -/
theorem work_over (hs : s.ldr.state = .idle ∨ s.ldr.state = .waitDone) :
    s.work = 0 ∧ (s.step msbf div i).work = 0 := by
  have hstart : (s.loaderIn msbf div i).csrStart = false := rfl
  have hdone : (s.loaderIn msbf div i).doneSynced = false := rfl
  rcases hs with hs | hs
  · simp [Feed.work, Feed.step, pMainFsm, guard_loaderIn, hstart, hs]
  · by_cases ht : s.ldr.timeoutCounter = 0#21 <;>
      simp [Feed.work, Feed.step, pMainFsm, guard_loaderIn, hdone, hs, ht]

theorem work_drops (h : s.Serial) (hpos : 0 < s.work) (hr : s.ready i = true) :
    (s.step msbf div i).work < s.work := by
  obtain ⟨-, hctl⟩ := h
  cases hs : s.ldr.state <;> simp only [hs] at hctl <;> simp only [Feed.work, hs] at hpos <;>
    simp only [Feed.ready, hs] at hr
  case idle => omega
  case waitDone => omega
  case readFifo =>
    have he : s.empty i = false := by simpa using hr
    have hin : (s.loaderIn msbf div i).csrEmpty = false := he
    have hrd : csrRd s.ldr false = true := by simp [csrRd, hs]
    cases hq : s.queue with
    | nil => simp [hq] at hpos
    | cons e q =>
      simp [Feed.work, Feed.step, pMainFsm, guard_loaderIn, hs, he, hin, hrd, hq, entryWork]
  case readFifo2 =>
    have hrd : csrRd s.ldr (s.empty i) = false := by simp [csrRd, hs]
    have hsize : (s.loaderIn msbf div i).csrDsize = s.cur.xsize := rfl
    have hload := bitCounter_load s.cur.xsize
    simp only [Feed.work, Feed.step, pMainFsm, guard_loaderIn, hs, hr, hrd, hsize, XilinxLoader.step_state,
      XilinxLoader.step_bitCounter, if_true, Bool.false_eq_true, if_false]
    omega
  case outputBit =>
    have hrd : csrRd s.ldr (s.empty i) = false := by simp [csrRd, hs]
    have hdone : (s.loaderIn msbf div i).doneSynced = false := rfl
    simp [Feed.work, Feed.step, pMainFsm, guard_loaderIn, hs, hr, hrd, hdone]
    omega
  case clockEdge =>
    have hrd : csrRd s.ldr (s.empty i) = false := by simp [csrRd, hs]
    by_cases hb : s.ldr.bitCounter = 0#5
    · cases hd : s.ldr.dLast with
      | true =>
        have hq : s.queue = [] := hctl.2 hd
        simp [Feed.work, Feed.step, pMainFsm, guard_loaderIn, hs, hr, hrd, hb, hd, hq]
      | false => simp [Feed.work, Feed.step, pMainFsm, guard_loaderIn, hs, hr, hrd, hb, hd]
    · have := sub_one_toNat hb
      simp [Feed.work, Feed.step, pMainFsm, guard_loaderIn, hs, hr, hrd, hb, -BitVec.toNat_sub]
      omega

theorem work_holds (h : s.Serial) (hr : s.ready i = false) :
    (s.step msbf div i).work = s.work ∧
      (0 < s.work → (s.step msbf div i).ldr.state = s.ldr.state) := by
  obtain ⟨-, hctl⟩ := h
  cases hs : s.ldr.state <;> simp only [hs] at hctl <;> simp only [Feed.ready, hs] at hr
  case idle =>
    obtain ⟨h0, h0'⟩ := work_over (s := s) (i := i) (.inl hs)
    exact ⟨h0'.trans h0.symm, fun hpos => absurd h0 (Nat.ne_of_gt hpos)⟩
  case waitDone =>
    obtain ⟨h0, h0'⟩ := work_over (s := s) (i := i) (.inr hs)
    exact ⟨h0'.trans h0.symm, fun hpos => absurd h0 (Nat.ne_of_gt hpos)⟩
  case readFifo =>
    have he : s.empty i = true := by simpa using hr
    have hin : (s.loaderIn msbf div i).csrEmpty = true := he
    have hrd : csrRd s.ldr true = false := by simp [csrRd]
    simp [Feed.work, Feed.step, pMainFsm, guard_loaderIn, hs, he, hin, hrd]
  all_goals
    have hrd : csrRd s.ldr (s.empty i) = false := by simp [csrRd, hs]
    simp [Feed.work, Feed.step, pMainFsm, guard_loaderIn, hs, hr, hrd]

theorem work_le (h : s.Serial) : (s.step msbf div i).work ≤ s.work := by
  cases hr : s.ready i with
  | false => exact Nat.le_of_eq (work_holds h hr).1
  | true =>
    rcases Nat.eq_zero_or_pos s.work with h0 | hpos
    · obtain ⟨-, hctl⟩ := h
      cases hs : s.ldr.state <;> simp only [hs] at hctl <;> simp [Feed.work, hs] at h0
      case idle => exact (work_over (.inl hs)).2 ▸ Nat.zero_le _
      case waitDone => exact (work_over (.inr hs)).2 ▸ Nat.zero_le _
      case readFifo =>
        cases hq : s.queue with
        | nil => simp [Feed.ready, Feed.empty, hs, hq] at hr
        | cons e q => simp [hq, entryWork] at h0
    · exact Nat.le_of_lt (work_drops h hpos hr)

end Work

/-! ## A whole configuration -/

section Run

variable {s₀ : Feed} {inp : ℕ → FeedIn}

theorem serial_run (h₀ : s₀.Serial) (t : ℕ) : (run (Feed.step msbf div) s₀ inp t).Serial :=
  invariant_run (A := fun _ _ => True) h₀ (fun _ _ h _ => (step_conserves h).1) (fun _ => trivial) t

/-- What has been sampled and what remains are the bits there were at the start. -/
theorem samples_append_remaining (h₀ : s₀.Serial) (t : ℕ) :
    cclkSamples (fun u => (run (Feed.step msbf div) s₀ inp u).ldr) t ++
      (run (Feed.step msbf div) s₀ inp t).remaining msbf = s₀.remaining msbf := by
  induction t with
  | zero => rfl
  | succ t ih =>
    have hstep : Conserves msbf (run (Feed.step msbf div) s₀ inp t)
        (run (Feed.step msbf div) s₀ inp (t + 1)) := step_conserves (serial_run h₀ t)
    rw [← ih, hstep.2, ← List.append_assoc]
    rfl

/-- With the FIFO not empty for ever, the loader runs out of work. -/
theorem work_reaches_zero (h₀ : s₀.Serial) (hfair : ∀ t, ∃ u, t ≤ u ∧ (inp u).stall = false) :
    ∃ T, ∀ t, T ≤ t → (run (Feed.step msbf div) s₀ inp t).work = 0 := by
  obtain ⟨r, hr⟩ : ∃ r, r = run (Feed.step msbf div) s₀ inp := ⟨_, rfl⟩
  have hsucc : ∀ t, r (t + 1) = (r t).step msbf div (inp t) := fun t => by rw [hr]; rfl
  have hserial : ∀ t, (r t).Serial := fun t => hr ▸ serial_run h₀ t
  rw [← hr]
  refine eventually_zero (fun t => hsucc t ▸ work_le (hserial t)) (fun t hpos => ?_)
  -- Suppose the work never drops after `t`: then the loader waits in one state for ever.
  by_contra hno
  have hno' : ∀ u, t ≤ u → ¬ (r (u + 1)).work < (r t).work := fun u hu hlt => hno ⟨u, hu, hlt⟩
  have hstuck : ∀ n, (r (t + n)).work = (r t).work ∧ (r (t + n)).ldr.state = (r t).ldr.state := by
    intro n
    induction n with
    | zero => exact ⟨rfl, rfl⟩
    | succ n ih =>
      have hnodrop := hno' (t + n) (by omega)
      cases hready : (r (t + n)).ready (inp (t + n)) with
      | true =>
        have hdrop : (r (t + n + 1)).work < (r (t + n)).work := by
          rw [hsucc]
          exact work_drops (hserial (t + n)) (by omega) hready
        omega
      | false =>
        obtain ⟨hw, hst⟩ : (r (t + n + 1)).work = (r (t + n)).work ∧
            (0 < (r (t + n)).work → (r (t + n + 1)).ldr.state = (r (t + n)).ldr.state) := by
          rw [hsucc]
          exact work_holds (hserial (t + n)) hready
        exact ⟨hw.trans ih.1, (hst (by omega)).trans ih.2⟩
  -- But what it waits for comes: an entry if it is in `READ_FIFO`, a tick otherwise.
  obtain ⟨n, hn⟩ : ∃ n, (r (t + n)).ready (inp (t + n)) = true := by
    by_cases hst : (r t).ldr.state = .readFifo
    · obtain ⟨u, hu, hstall⟩ := hfair t
      obtain ⟨hw, hsu⟩ := hstuck (u - t)
      rw [show t + (u - t) = u by omega] at hw hsu
      refine ⟨u - t, ?_⟩
      rw [show t + (u - t) = u by omega]
      cases hq : (r u).queue with
      | nil =>
        have hz : (r u).work = 0 := by simp [Feed.work, hsu, hst, hq]
        omega
      | cons e q => simp [Feed.ready, Feed.empty, hsu, hst, hstall, hq]
    · obtain ⟨u, hu, -, htick⟩ := XilinxLoader.tick_recurs (r := fun t => (r t).ldr)
        (i := fun t => (r t).loaderIn msbf div (inp t)) (d := div) (fun t => by rw [hsucc]; rfl)
        (fun _ => rfl) (fun _ => rfl) t
      obtain ⟨-, hsu⟩ := hstuck (u - t)
      rw [show t + (u - t) = u by omega] at hsu
      refine ⟨u - t, ?_⟩
      rw [show t + (u - t) = u by omega]
      have hne : (r u).ldr.state ≠ .readFifo := hsu ▸ hst
      unfold Feed.ready
      split
      · exact absurd ‹_› hne
      · exact htick
  have hdrop : (r (t + n + 1)).work < (r t).work := by
    rw [hsucc, ← (hstuck n).1]
    exact work_drops (hserial (t + n)) (by rw [(hstuck n).1]; exact hpos) hn
  exact hno' (t + n) (by omega) hdrop

/-- Out of work, the loader holds no bit back. -/
theorem remaining_of_work_zero {s : Feed} (h : s.Serial) (hw : s.work = 0) :
    s.remaining msbf = [] := by
  obtain ⟨-, hctl⟩ := h
  cases hs : s.ldr.state <;> simp only [hs] at hctl <;> simp only [Feed.work, hs] at hw
  case readFifo =>
    cases hq : s.queue with
    | nil => simp [Feed.remaining, Feed.pending, hs, hq]
    | cons e q => simp [hq, entryWork] at hw
  case waitDone => simp [Feed.remaining, Feed.pending, hs, hctl]
  case idle => simp [Feed.remaining, Feed.pending, hs, hctl]
  all_goals omega

end Run

/-- Every configuration clocks out exactly the bits of its entries.  From `READ_FIFO` on,
with any divider, any FIFO stalls and DONE low: the bits sampled so far are always a prefix
of the bits of the entries, DIN does not move at a rising edge, and once the FIFO has
supplied its entries the bits sampled are all of them and stay so. -/
theorem bits_clocked_out (msbf : Bool) (div : BitVec 7) (entries : List FifoEntry)
    (hlast : LastOnlyFinal entries) (ldr : Regs) (hstate : ldr.state = .readFifo)
    (cur : FifoEntry) (inp : ℕ → FeedIn) :
    let r := fun u => (run (Feed.step msbf div) ⟨ldr, entries, cur⟩ inp u).ldr
    let bits := entries.flatMap (FifoEntry.bits msbf)
    (∀ t, cclkSamples r t <+: bits) ∧
      (∀ t, (r t).xlxCclk = false → (r (t + 1)).xlxCclk = true → (r (t + 1)).xlxDin = (r t).xlxDin) ∧
      ((∀ t, ∃ u, t ≤ u ∧ (inp u).stall = false) → ∃ T, ∀ t, T ≤ t → cclkSamples r t = bits) := by
  intro r bits
  have h₀ : Feed.Serial ⟨ldr, entries, cur⟩ := ⟨hlast, by simp [hstate]⟩
  have hrem : Feed.remaining msbf ⟨ldr, entries, cur⟩ = bits := by
    simp [Feed.remaining, Feed.pending, hstate, bits]
  have hsum : ∀ t, cclkSamples r t ++
      (run (Feed.step msbf div) ⟨ldr, entries, cur⟩ inp t).remaining msbf = bits :=
    fun t => hrem ▸ samples_append_remaining h₀ t
  refine ⟨fun t => ⟨_, hsum t⟩, fun t hlow hhigh => ?_, fun hfair => ?_⟩
  · obtain ⟨hrun, htick, hst⟩ := cclk_rises_only hlow hhigh
    have hctl := (serial_run h₀ t : (run (Feed.step msbf div) ⟨ldr, entries, cur⟩ inp t).Serial).2
    rcases hst with hst | hst
    · exact XilinxLoader.din_holds_clockEdge hrun hst
    · have hst' : (run (Feed.step msbf div) ⟨ldr, entries, cur⟩ inp t).ldr.state = .startupCclk1 := hst
      rw [hst'] at hctl
      exact hctl.elim
  · obtain ⟨T, hT⟩ : ∃ T, ∀ t, T ≤ t →
        (run (Feed.step msbf div) ⟨ldr, entries, cur⟩ inp t).work = 0 := work_reaches_zero h₀ hfair
    refine ⟨T, fun t ht => ?_⟩
    have := hsum t
    rwa [remaining_of_work_zero (serial_run h₀ t) (hT t ht), List.append_nil] at this

/-- A two-entry configuration: a full word and a final entry of one byte. -/
theorem bits_clocked_out_two_entries :
    let entries : List FifoEntry := [⟨3#2, false, 0xaabbccdd#32⟩, ⟨0#2, true, 0x11000000#32⟩]
    let ldr : Regs := { (default : Regs) with state := .readFifo }
    let r := fun u =>
      (run (Feed.step true 1#7) ⟨ldr, entries, default⟩ (fun _ => ⟨false, true, true⟩) u).ldr
    ∃ T, ∀ t, T ≤ t → cclkSamples r t = entries.flatMap (FifoEntry.bits true) :=
  (bits_clocked_out true 1#7 [⟨3#2, false, 0xaabbccdd#32⟩, ⟨0#2, true, 0x11000000#32⟩]
    (by simp [LastOnlyFinal]) { (default : Regs) with state := .readFifo } rfl default
    (fun _ => ⟨false, true, true⟩)).2.2 (fun t => ⟨t, Nat.le_refl t, rfl⟩)

end Svec.Loader.Serialise
