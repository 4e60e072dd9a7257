/-
  Loader/Delivery.lean --- from the FIFO to the FPGA, while the host pushes.

  The serialiser of `Loader/Serialise.lean` is fed from a queue that is known from
  the start.  On the card the queue is the FIFO, which the host fills while the
  loader empties it.  What the FIFO holds, and behind it what it will accept up to
  a given cycle, is a queue of that kind: the loader on the FIFO simulates the
  serialiser on it cycle by cycle, whatever the interleaving.
-/
import Svec.Loader.Serialise
import Svec.Loader.Stuck

set_option autoImplicit false

namespace Svec.Loader.Delivery

open Svec.Data Svec.Sync Svec.Hdl Svec.Loader.Session Svec.Loader.Serialise
open Svec.Hdl.XilinxLoader (Regs State csrRd pMainFsm)

variable {F : FifoSync Stamped 256}

/-! ## What the FIFO accepts -/

/-- The entry that the FIFO accepts in a cycle. -/
def accepts (s : HostPath F) (i : HostIn) : List FifoEntry :=
  if F.wrFull s.fifo then [] else i.fifoPush.toList

/-- The entries that the FIFO accepts in the `n` cycles from `a` on. -/
def accepted (s₀ : HostPath F) (inp : ℕ → HostIn) (a n : ℕ) : List FifoEntry :=
  collect (fun k => accepts (trace s₀ inp (a + k)) (inp (a + k))) n

/-- What the FIFO holds. -/
def stored (s : HostPath F) : List FifoEntry := (F.contents s.fifo).map Prod.fst

/-- The entry on the read port of the FIFO. -/
def onPort (s : HostPath F) : FifoEntry := (F.rdData s.fifo).1

/-- A cycle in which the host at most pushes or writes EXIT: no reset, SWRST, START or
CLEAR_BUS, the byte order and the divider as given.  DONE is low. -/
structure Calm (msbf : Bool) (c : BitVec 6) (i : HostIn) : Prop where
  rstN : i.rstN = true
  csrSwrst : i.csrSwrst = false
  csrStart : i.csrStart = false
  csrMsbf : i.csrMsbf = msbf
  csrClkdiv : i.csrClkdiv = c
  fifoClearBus : i.fifoClearBus = false
  doneSynced : i.doneSynced = false

section Accepted

variable {s₀ : HostPath F} {inp : ℕ → HostIn}

theorem accepted_succ (a n : ℕ) : accepted s₀ inp a (n + 1) =
    accepted s₀ inp a n ++ accepts (trace s₀ inp (a + n)) (inp (a + n)) := rfl

theorem accepted_succ_left (a n : ℕ) : accepted s₀ inp a (n + 1) =
    accepts (trace s₀ inp a) (inp a) ++ accepted s₀ inp (a + 1) n := by
  rw [accepted, collect_succ_left]
  congr 1
  exact collect_congr fun k _ => by rw [show a + (k + 1) = a + 1 + k by omega]

theorem accepted_add (a m n : ℕ) :
    accepted s₀ inp a (m + n) = accepted s₀ inp a m ++ accepted s₀ inp (a + m) n := by
  rw [accepted, collect_add]
  congr 1
  exact collect_congr fun k _ => by rw [Nat.add_assoc]

/-- What the FIFO holds changes by what is read and what is accepted. -/
theorem stored_step {s : HostPath F} {i : ℕ × HostIn} (hr : i.2.rstN = true)
    (hc : i.2.fifoClearBus = false) :
    stored (s.step i) = (if s.rd then (stored s).tail else stored s) ++ accepts s i.2 := by
  unfold stored HostPath.step accepts
  rw [F.contents_step _ _ (by simp [hr, hc]), List.map_append]
  congr 1
  · split <;> simp
  · cases hp : i.2.fifoPush <;> cases hf : F.wrFull s.fifo <;> simp

end Accepted

/-! ## The simulation -/

section Simulation

variable (s₀ : HostPath F) (inp : ℕ → HostIn)

/-- The serialiser that the loader is in cycle `t`, with the entries that are still to come up to
cycle `N`. -/
def feedAt (N t : ℕ) : Feed where
  ldr := (trace s₀ inp t).ldr
  queue := stored (trace s₀ inp t) ++ accepted s₀ inp t (N - t)
  cur := onPort (trace s₀ inp t)

/-- The FIFO is empty although entries are still to come. -/
def feedInAt (N t : ℕ) : FeedIn where
  stall := F.rdEmpty (trace s₀ inp t).fifo && !(accepted s₀ inp t (N - t)).isEmpty
  startup := (inp t).csrExit
  initB := (inp t).initBSynced

variable {s₀ inp} {msbf : Bool} {c : BitVec 6} {N t : ℕ}

theorem feed_empty : (feedAt s₀ inp N t).empty (feedInAt s₀ inp N t) =
    F.rdEmpty (trace s₀ inp t).fifo := by
  unfold Feed.empty feedAt feedInAt stored
  rw [F.rdEmpty_eq]
  cases F.contents (trace s₀ inp t).fifo <;> cases accepted s₀ inp t (N - t) <;> simp

theorem feed_loaderIn (h : Calm msbf c (inp t)) :
    (trace s₀ inp t).loaderIn (inp t) =
      (feedAt s₀ inp N t).loaderIn msbf (0#1 ++ c) (feedInAt s₀ inp N t) := by
  unfold HostPath.loaderIn Feed.loaderIn
  rw [feed_empty, h.rstN, h.csrSwrst, h.csrStart, h.csrMsbf, h.csrClkdiv, h.doneSynced]
  rfl

/-- The loader on the FIFO takes the step of the serialiser. -/
theorem feed_step (h : Calm msbf c (inp t))
    (hfuture : t < N ∨ accepts (trace s₀ inp t) (inp t) = []) :
    feedAt s₀ inp N (t + 1) = (feedAt s₀ inp N t).step msbf (0#1 ++ c) (feedInAt s₀ inp N t) := by
  have hrd : csrRd (feedAt s₀ inp N t).ldr ((feedAt s₀ inp N t).empty (feedInAt s₀ inp N t)) =
      (trace s₀ inp t).rd := by
    rw [feed_empty]
    rfl
  have hqueue : (feedAt s₀ inp N (t + 1)).queue =
      (if (trace s₀ inp t).rd then (stored (trace s₀ inp t)).tail else stored (trace s₀ inp t)) ++
        accepted s₀ inp t (N - t) := by
    show stored ((trace s₀ inp t).step (t, inp t)) ++ accepted s₀ inp (t + 1) (N - (t + 1)) = _
    rw [stored_step h.rstN h.fifoClearBus, List.append_assoc]
    congr 1
    rcases Nat.lt_or_ge t N with hlt | hge
    · rw [show N - t = N - (t + 1) + 1 by omega, accepted_succ_left]
    · rw [hfuture.resolve_left (Nat.not_lt.mpr hge), show N - (t + 1) = 0 by omega,
        show N - t = 0 by omega]
      rfl
  unfold Feed.step
  rw [hrd, ← feed_loaderIn h]
  cases hread : (trace s₀ inp t).rd with
  | false =>
    have hport : onPort (trace s₀ inp (t + 1)) = onPort (trace s₀ inp t) :=
      congrArg Prod.fst (F.rdData_hold _ _ hread)
    rw [hread] at hqueue
    simp only [Bool.false_eq_true, if_false] at hqueue ⊢
    rw [← show (feedAt s₀ inp N (t + 1)).queue = (feedAt s₀ inp N t).queue from hqueue]
    simp only [feedAt, hport]
    rfl
  | true =>
    obtain ⟨e, q, hq⟩ : ∃ e q, F.contents (trace s₀ inp t).fifo = e :: q := by
      cases hq : F.contents (trace s₀ inp t).fifo with
      | nil => exact absurd hq (rd_iff.mp hread).1
      | cons e q => exact ⟨e, q, rfl⟩
    have hport : onPort (trace s₀ inp (t + 1)) = e.1 :=
      congrArg Prod.fst (rdData_step (i := (t, inp t)) h.rstN h.fifoClearBus hread hq)
    have hstored : stored (trace s₀ inp t) = e.1 :: q.map Prod.fst := by rw [stored, hq]; rfl
    rw [hread, hstored] at hqueue
    have hold : (feedAt s₀ inp N t).queue = e.1 :: (q.map Prod.fst ++ accepted s₀ inp t (N - t)) := by
      rw [feedAt, hstored]
      rfl
    simp only [if_true, hold, List.tail_cons, List.headD_cons] at hqueue ⊢
    rw [← hport, ← hqueue]
    rfl

end Simulation

/-! ## From START on -/

/-- The bits that the CCLK edges of the `n` cycles from `a` on have sampled. -/
def sampled (s₀ : HostPath F) (inp : ℕ → HostIn) (a n : ℕ) : List Bool :=
  cclkSamples (fun k => (trace s₀ inp (a + k)).ldr) n

/-- The entries of a load that began in cycle `a`: what the FIFO held then, and what it has
accepted since. -/
def entriesFrom (s₀ : HostPath F) (inp : ℕ → HostIn) (a N : ℕ) : List FifoEntry :=
  stored (trace s₀ inp a) ++ accepted s₀ inp a (N - a)

/-- Between START and `READ_FIFO`. -/
def Opening (st : State) : Prop := st = .extendProg ∨ st = .waitInit ∨ st = .waitInit2

instance (st : State) : Decidable (Opening st) := inferInstanceAs (Decidable (_ ∨ _))

/-- In cycle `a + k` of a load that began in cycle `a` what was sampled and what remains are the
bits of its entries. -/
structure Sampling (msbf : Bool) (s₀ : HostPath F) (inp : ℕ → HostIn) (a N k : ℕ) : Prop where
  serial : (feedAt s₀ inp N (a + k)).Serial
  sum : sampled s₀ inp a k ++ (feedAt s₀ inp N (a + k)).remaining msbf =
    (entriesFrom s₀ inp a N).flatMap (FifoEntry.bits msbf)

/-- How a load that began in cycle `a` stands in cycle `a + k`. -/
inductive Stands (msbf : Bool) (s₀ : HostPath F) (inp : ℕ → HostIn) (a N k : ℕ) : Prop where
  /-- Nothing was read yet. -/
  | opening (hs : Opening (trace s₀ inp (a + k)).ldr.state)
      (hall : (feedAt s₀ inp N (a + k)).queue = entriesFrom s₀ inp a N)
      (hnone : sampled s₀ inp a k = [])
  /-- INIT_B did not answer. -/
  | abandoned (hs : (trace s₀ inp (a + k)).ldr.state = .idle) (hnone : sampled s₀ inp a k = [])
  /-- The bits are sampled one after the other. -/
  | loading (h : Sampling msbf s₀ inp a N k)

section Run

variable {s₀ : HostPath F} {inp : ℕ → HostIn} {msbf : Bool} {c : BitVec 6} {a N k : ℕ}

theorem sampled_succ (a k : ℕ) : sampled s₀ inp a (k + 1) = sampled s₀ inp a k ++
    clocked (trace s₀ inp (a + k)).ldr (trace s₀ inp (a + k + 1)).ldr := rfl

theorem serial_readFifo {s : Feed} (hs : s.ldr.state = .readFifo) (hlast : LastOnlyFinal s.queue) :
    s.Serial := ⟨hlast, by simp [hs]⟩

/-- Outside of the serialiser no edge samples anything. -/
theorem clocked_eq_nil {s : HostPath F} {i : ℕ × HostIn} (h : s.ldr.state ≠ .clockEdge)
    (h' : s.ldr.state ≠ .startupCclk1) : clocked s.ldr (s.step i).ldr = [] := by
  unfold clocked
  split
  · rename_i hedge
    rw [Bool.and_eq_true, Bool.not_eq_true'] at hedge
    obtain ⟨hlow, hhigh⟩ := hedge
    rcases (cclk_rises_only hlow hhigh).2.2 with hs | hs
    · exact absurd hs h
    · exact absurd hs h'
  · rfl

theorem opening_step (h : Calm msbf c (inp (a + k))) (hlast : LastOnlyFinal (entriesFrom s₀ inp a N))
    (hfuture : a + k < N ∨ accepts (trace s₀ inp (a + k)) (inp (a + k)) = [])
    (hs : Opening (trace s₀ inp (a + k)).ldr.state)
    (hall : (feedAt s₀ inp N (a + k)).queue = entriesFrom s₀ inp a N)
    (hnone : sampled s₀ inp a k = []) : Stands msbf s₀ inp a N (k + 1) := by
  have hstep := feed_step h hfuture
  have hclocked : clocked (trace s₀ inp (a + k)).ldr (trace s₀ inp (a + k + 1)).ldr = [] :=
    clocked_eq_nil (by rintro heq; rw [heq] at hs; revert hs; decide)
      (by rintro heq; rw [heq] at hs; revert hs; decide)
  have hnone' : sampled s₀ inp a (k + 1) = [] := by rw [sampled_succ, hnone, hclocked]; rfl
  have hread : csrRd (feedAt s₀ inp N (a + k)).ldr
      ((feedAt s₀ inp N (a + k)).empty (feedInAt s₀ inp N (a + k))) = false := by
    rw [feed_empty]
    exact rd_false (by rintro heq; rw [heq] at hs; revert hs; decide)
      (by rintro heq; rw [heq] at hs; revert hs; decide)
  have hall' : (feedAt s₀ inp N (a + k + 1)).queue = entriesFrom s₀ inp a N := by
    rw [hstep, ← hall]
    simp [Feed.step, hread]
  have hrun : ((trace s₀ inp (a + k)).loaderIn (inp (a + k))).Running := ⟨h.rstN, h.csrSwrst⟩
  have hst : (trace s₀ inp (a + k + 1)).ldr.state =
      (pMainFsm (trace s₀ inp (a + k)).ldr ((trace s₀ inp (a + k)).loaderIn (inp (a + k)))).state := rfl
  by_cases hs' : Opening (trace s₀ inp (a + k + 1)).ldr.state
  · exact .opening hs' hall' hnone'
  rcases hs with hs | hs | hs
  · -- PROG_B is low for a while, and then the loader waits.
    exfalso
    rw [hst] at hs'
    by_cases ht : (trace s₀ inp (a + k)).ldr.timeoutCounter = 0#21
    · simp [pMainFsm, hrun.guard, hs, ht, Opening] at hs'
    · simp [pMainFsm, hrun.guard, hs, ht, Opening] at hs'
  · refine .abandoned ?_ hnone'
    rw [hst] at hs'
    show (trace s₀ inp (a + k + 1)).ldr.state = _
    rw [hst]
    by_cases ht : (trace s₀ inp (a + k)).ldr.timeoutCounter = 0#21 <;>
      cases hb : ((trace s₀ inp (a + k)).loaderIn (inp (a + k))).initBSynced <;>
      simp [pMainFsm, hrun.guard, hs, ht, hb, Opening] at hs' ⊢
  · have hrf : (trace s₀ inp (a + k + 1)).ldr.state = .readFifo := by
      rw [hst] at hs' ⊢
      cases hb : ((trace s₀ inp (a + k)).loaderIn (inp (a + k))).initBSynced <;>
        simp [pMainFsm, hrun.guard, hs, hb, Opening] at hs' ⊢
    have hfeed : (feedAt s₀ inp N (a + k + 1)).ldr.state = .readFifo := hrf
    have hlast' : LastOnlyFinal (feedAt s₀ inp N (a + k + 1)).queue := hall'.symm ▸ hlast
    refine .loading ⟨serial_readFifo hfeed hlast', ?_⟩
    rw [hnone', List.nil_append]
    show (feedAt s₀ inp N (a + k + 1)).remaining msbf = _
    rw [Feed.remaining, hall', Feed.pending, hfeed]
    rfl

theorem sampling_step (h : Calm msbf c (inp (a + k)))
    (hfuture : a + k < N ∨ accepts (trace s₀ inp (a + k)) (inp (a + k)) = [])
    (hk : Sampling msbf s₀ inp a N k) : Sampling msbf s₀ inp a N (k + 1) := by
  have hstep := feed_step h hfuture
  obtain ⟨hserial, hsum⟩ : Conserves msbf _ (feedAt s₀ inp N (a + k + 1)) :=
    hstep ▸ step_conserves hk.serial
  refine ⟨hserial, ?_⟩
  rw [sampled_succ, List.append_assoc, ← hk.sum, hsum]
  rfl

theorem stands_step (h : Calm msbf c (inp (a + k))) (hlast : LastOnlyFinal (entriesFrom s₀ inp a N))
    (hfuture : a + k < N ∨ accepts (trace s₀ inp (a + k)) (inp (a + k)) = [])
    (hk : Stands msbf s₀ inp a N k) : Stands msbf s₀ inp a N (k + 1) := by
  cases hk with
  | opening hs hall hnone => exact opening_step h hlast hfuture hs hall hnone
  | abandoned hs hnone =>
    refine .abandoned (XilinxLoader.idle_step ⟨h.rstN, h.csrSwrst⟩ h.csrStart hs) ?_
    rw [sampled_succ, hnone, List.nil_append]
    exact clocked_eq_nil (by rw [hs]; decide) (by rw [hs]; decide)
  | loading hk => exact .loading (sampling_step h hfuture hk)

/-- How a load stands, at any time up to cycle `N`. -/
theorem stands_run (hstart : (trace s₀ inp a).ldr.state = .extendProg)
    (hlast : LastOnlyFinal (entriesFrom s₀ inp a N))
    (hcalm : ∀ j, j < k → Calm msbf c (inp (a + j)))
    (hfuture : ∀ j, j < k → a + j < N ∨ accepts (trace s₀ inp (a + j)) (inp (a + j)) = []) :
    Stands msbf s₀ inp a N k := by
  induction k with
  | zero => exact .opening (.inl hstart) rfl rfl
  | succ k ih =>
    exact stands_step (hcalm k (Nat.lt_succ_self k)) hlast (hfuture k (Nat.lt_succ_self k))
      (ih (fun j hj => hcalm j (Nat.lt_succ_of_lt hj)) fun j hj => hfuture j (Nat.lt_succ_of_lt hj))

/-- A load that has come to `READ_FIFO` samples everything if nothing disturbs it. -/
theorem sampled_all (hstart : (trace s₀ inp a).ldr.state = .extendProg)
    (hlast : LastOnlyFinal (entriesFrom s₀ inp a N))
    (hcalm : ∀ j, Calm msbf c (inp (a + j))) (hquiet : ∀ t, N ≤ t → (inp t).fifoPush = none) {r : ℕ}
    (hread : (trace s₀ inp (a + r)).ldr.state = .readFifo) :
    ∃ k, sampled s₀ inp a k = (entriesFrom s₀ inp a N).flatMap (FifoEntry.bits msbf) := by
  have hfuture : ∀ j, a + j < N ∨ accepts (trace s₀ inp (a + j)) (inp (a + j)) = [] := by
    intro j
    rcases Nat.lt_or_ge (a + j) N with hlt | hge
    · exact .inl hlt
    · exact .inr (by simp [accepts, hquiet _ hge])
  have hsampling : ∀ n, Sampling msbf s₀ inp a N (r + n) := by
    intro n
    induction n with
    | zero =>
      cases stands_run hstart hlast (fun j _ => hcalm j) (fun j _ => hfuture j) with
      | opening hs _ _ => rw [hread] at hs; exact absurd hs (by decide)
      | abandoned hs _ => rw [hread] at hs; exact absurd hs (by decide)
      | loading h => exact h
    | succ n ih => exact sampling_step (hcalm (r + n)) (hfuture (r + n)) ih
  have hrun : ∀ n, feedAt s₀ inp N (a + r + n) = run (Feed.step msbf (0#1 ++ c))
      (feedAt s₀ inp N (a + r)) (fun n => feedInAt s₀ inp N (a + r + n)) n := by
    intro n
    induction n with
    | zero => rfl
    | succ n ih =>
      have hstep := feed_step (N := N) (hcalm (r + n)) (hfuture (r + n))
      rw [run_succ, ← ih, ← Nat.add_assoc]
      simpa only [Nat.add_assoc] using hstep
  have hserial : (feedAt s₀ inp N (a + r)).Serial := (hsampling 0).serial
  -- From cycle `N` on nothing is still to come, so nothing stalls the serialiser.
  obtain ⟨T, hT⟩ := @work_reaches_zero msbf (0#1 ++ c) _
    (fun n => feedInAt s₀ inp N (a + r + n)) hserial fun t => ⟨t + N, by omega, by
      have hnone : N - (a + r + (t + N)) = 0 := by omega
      simp [feedInAt, hnone, accepted, collect]⟩
  have hzero := hT T (Nat.le_refl T)
  rw [← hrun, Nat.add_assoc] at hzero
  refine ⟨r + T, ?_⟩
  rw [← (hsampling T).sum, remaining_of_work_zero (hsampling T).serial hzero, List.append_nil]

/-- Once the loader reads and the host has pushed its last entry, everything is sampled or something
disturbs the load. -/
theorem sampled_or_disturbed (hstart : (trace s₀ inp a).ldr.state = .extendProg)
    (hlast : LastOnlyFinal (entriesFrom s₀ inp a N)) (hquiet : ∀ t, N ≤ t → (inp t).fifoPush = none)
    {r : ℕ} (hread : (trace s₀ inp (a + r)).ldr.state = .readFifo) {P : ℕ → Prop}
    (hcalm : ∀ k, (∀ j, j ≤ k → P j) → Calm msbf c (inp (a + k))) :
    ∃ k, (∀ j, j < k → P j) ∧
      (sampled s₀ inp a k = (entriesFrom s₀ inp a N).flatMap (FifoEntry.bits msbf) ∨ ¬ P k) := by
  by_cases hall : ∀ j, P j
  · obtain ⟨k, hk⟩ := sampled_all hstart hlast (fun j => hcalm j fun i _ => hall i) hquiet hread
    exact ⟨k, fun j _ => hall j, .inl hk⟩
  · obtain ⟨j, hj⟩ := Classical.not_forall.mp hall
    obtain ⟨k, -, -, hk, hbefore⟩ := exists_first (P := fun j => ¬ P j) (Nat.zero_le j) hj
    exact ⟨k, fun i hi => Classical.not_not.mp (hbefore i (Nat.zero_le i) hi), .inr hk⟩

end Run

/-- The bits inside the loader that no CCLK edge has sampled yet. -/
def inLoader (msbf : Bool) (s : HostPath F) : List Bool :=
  Feed.pending msbf ⟨s.ldr, stored s, onPort s⟩

/-- Whatever the interleaving of the host's pushes with the loader's reads, from START on and as
long as nothing disturbs the load, no bit is lost, repeated or reordered: what CCLK edges have
sampled, what is inside the loader and what is in the FIFO are together the bits of what was in
the FIFO and what it has accepted since, in order, unless INIT_B has not answered and nothing was
sampled.  Once the loader reads and the host has pushed its last entry, everything is sampled
or something disturbs the load. -/
theorem load_conserves (F : FifoSync Stamped 256) (s₀ : HostPath F) (inp : ℕ → HostIn) (msbf : Bool)
    (c : BitVec 6) (a : ℕ) (hstart : (trace s₀ inp a).ldr.state = .extendProg) :
    (∀ k, (∀ j, j < k → Calm msbf c (inp (a + j))) → LastOnlyFinal (entriesFrom s₀ inp a (a + k)) →
      (sampled s₀ inp a k = [] ∧ (Opening (trace s₀ inp (a + k)).ldr.state ∨
        (trace s₀ inp (a + k)).ldr.state = .idle)) ∨
      sampled s₀ inp a k ++ inLoader msbf (trace s₀ inp (a + k)) ++
          (stored (trace s₀ inp (a + k))).flatMap (FifoEntry.bits msbf) =
        (entriesFrom s₀ inp a (a + k)).flatMap (FifoEntry.bits msbf)) ∧
    ∀ N r, LastOnlyFinal (entriesFrom s₀ inp a N) → (∀ t, N ≤ t → (inp t).fifoPush = none) →
      (trace s₀ inp (a + r)).ldr.state = .readFifo →
      ∃ k, (∀ j, j < k → Calm msbf c (inp (a + j))) ∧
        (sampled s₀ inp a k = (entriesFrom s₀ inp a N).flatMap (FifoEntry.bits msbf) ∨
          ¬ Calm msbf c (inp (a + k))) := by
  refine ⟨fun k hcalm hlast => ?_, fun N r hlast hquiet hread => ?_⟩
  · cases stands_run hstart hlast hcalm (fun j hj => .inl (by omega)) with
    | opening hs _ hnone => exact .inl ⟨hnone, .inl hs⟩
    | abandoned hs hnone => exact .inl ⟨hnone, .inr hs⟩
    | loading h =>
      right
      have hqueue : (feedAt s₀ inp (a + k) (a + k)).queue = stored (trace s₀ inp (a + k)) := by
        simp [feedAt, accepted, collect]
      rw [← h.sum, Feed.remaining, hqueue, List.append_assoc]
      rfl
  · exact sampled_or_disturbed hstart hlast hquiet hread fun k h => h k (Nat.le_refl k)

/-- A loader after START with an empty FIFO. -/
def afterStart : HostPath (listFifo Stamped 256 default) :=
  ⟨{ (default : Regs) with state := .extendProg, timeoutCounter := XilinxLoader.cMinProgDelay },
    ([], default)⟩

/-- The host pushes two bytes in cycle 5, INIT_B answers. -/
def twoBytes (t : ℕ) : HostIn :=
  { (default : HostIn) with
    rstN := true, csrMsbf := true, initBSynced := decide (1002 ≤ t)
    fifoPush := if t = 5 then some ⟨1#2, true, 0xaabb0000#32⟩ else none }

/-- The two bytes arrive. -/
theorem load_conserves_twoBytes :
    ∃ k, sampled afterStart twoBytes 0 k = [0xaa#8, 0xbb#8].flatMap byteBits := by
  have hcalm : ∀ t, Calm true 0#6 (twoBytes t) := fun t => ⟨rfl, rfl, rfl, rfl, rfl, rfl, rfl⟩
  have hentries : entriesFrom afterStart twoBytes 0 6 = [⟨1#2, true, 0xaabb0000#32⟩] := by decide
  have hread : (trace afterStart twoBytes 1003).ldr.state = .readFifo :=
    (XilinxLoader.init_handshake (r := fun t => (trace afterStart twoBytes t).ldr)
      (i := fun t => (trace afterStart twoBytes t).loaderIn (twoBytes t)) (n := 0) (fun _ => rfl)
      (fun _ _ => ⟨rfl, rfl⟩) rfl rfl (by decide) (by decide)).2.2
  obtain ⟨k, -, hk⟩ := (load_conserves _ afterStart twoBytes true 0#6 0 rfl).2 6 1003
    (by simp [hentries, LastOnlyFinal])
    (fun t ht => by
      have hne : t ≠ 5 := by omega
      simp [twoBytes, hne])
    (by simpa using hread)
  refine ⟨k, ?_⟩
  rw [hk.resolve_right fun h => h (by simpa using hcalm _), hentries]
  decide

end Svec.Loader.Delivery
