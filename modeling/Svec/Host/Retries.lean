/-
  Host/Retries.lean --- how often the driver asks a full FIFO.

  The driver polls `FIFO_CSR` 10001 times for a word and then gives it up with
  -EBUSY.  A loader that shifts an entry out is back at the FIFO sooner than that,
  so a word is given up only if the loader waits for the FPGA, or stands in
  `GOT_DONE` for good.
-/
import Svec.Host.ClockedOut
import Svec.Host.Deadlock

set_option autoImplicit false

namespace Svec.Host.Retries

open Svec.Data Svec.Sync Svec.Hdl Svec.Host Svec.Host.LoaderCard Svec.Loader.Session
  Svec.Loader.Stuck Svec.Host.Upload
open Svec.Host.SvecCore (FpgaImageInfo SvecDev ebusy einval eio pollFifoCsr svecFpgaWriteWord
  writeBufLoop svecFpgaWriteStop svecFpgaWriteInit svecFpgaReset svecFpgaLoaderIsActive)
open Svec.Host.Stream (Holding pending_chunk writeAll session taken Session.NeverBusy lastWord)
open Svec.Host.ClockedOut (unlocked startState swrstCycle startCycle svecFpgaWriteInit_st wave_pause
  wave_at_swrst wave_before_swrst wave_between resetSequence swrst_lt_start startState_now winds_of_ends)
open Svec.Host.Deadlock (Loading Aligned Begins wordsFrom driverWords held begins_of_accesses
  spends_writeInit stands_of_givesUp flasher_free_iff idlePath earlyDone)

variable {F : FifoSync Stamped 256} {s₀ : HostPath F} {env : Surroundings}

/-! ## A word that is given up -/

section Busy

variable {M : Machine}

/-- From `h` to `h'` a program feeds the FIFO, and gives a word up on the way. -/
def GivesWordUp (h h' : Proc M) : Prop :=
  ∃ g es fs, Feeding h g es ∧ (pollFifoCsr g 10000).1.getLsbD fifoCsrFullBit = true ∧
    Feeding (pollFifoCsr g 10000).2 h' fs

variable {h h' k : Proc M}

theorem GivesWordUp.after {es : List FifoEntry} (hf : Feeding h k es) (hg : GivesWordUp k h') :
    GivesWordUp h h' := by
  obtain ⟨g, es', fs, hes, hfull, hfs⟩ := hg
  exact ⟨g, es ++ es', fs, hf.trans hes, hfull, hfs⟩

theorem GivesWordUp.before {es : List FifoEntry} (hg : GivesWordUp h k) (hf : Feeding k h' es) :
    GivesWordUp h h' := by
  obtain ⟨g, es', fs, hes, hfull, hfs⟩ := hg
  exact ⟨g, es', fs ++ es, hes, hfull, hfs.trans hf⟩

theorem writeWord_gives (h : Proc M) (word : Word) (size : Int) (isLast : Bool)
    (hbusy : (svecFpgaWriteWord h word size isLast).1 = -ebusy) :
    GivesWordUp h (svecFpgaWriteWord h word size isLast).2 := by
  unfold svecFpgaWriteWord at hbusy ⊢
  split at hbusy
  · exact absurd hbusy (by decide : (-einval : Int) ≠ -ebusy)
  · rename_i hsize
    rw [if_neg hsize]
    cases hfull : (pollFifoCsr h 10000).1.getLsbD fifoCsrFullBit with
    | true =>
      simp only [hfull, if_true]
      exact ⟨h, [], [], .refl h, hfull, .refl _⟩
    | false =>
      simp only [hfull, Bool.false_eq_true, if_false] at hbusy
      exact absurd hbusy (by decide)

theorem writeBufLoop_gives (buf : Buffer) (dev : SvecDev) (h : Proc M) (i : ℕ)
    (hbusy : (writeBufLoop buf dev h i).1 = -ebusy) : GivesWordUp h (writeBufLoop buf dev h i).2.2 := by
  induction dev, h, i using Svec.Host.SvecCore.writeBufLoop.induct buf with
  | case1 dev h i hlt word hstop =>
    rw [writeBufLoop, if_pos hlt] at hbusy ⊢
    simp only at hbusy ⊢
    rw [if_pos hstop] at hbusy ⊢
    exact writeWord_gives h _ _ _ hbusy
  | case2 dev h i hlt word hgo n ih =>
    rw [writeBufLoop, if_pos hlt] at hbusy ⊢
    simp only at hbusy ⊢
    rw [if_neg hgo] at hbusy ⊢
    obtain ⟨es, hes⟩ := feeding_writeWord h dev.bitstreamLastWord
      (dev.bitstreamLastWordSize.toNat : Int) false
    exact .after hes (ih hbusy)
  | case3 dev h i hend =>
    rw [writeBufLoop, if_neg hend] at hbusy
    exact absurd hbusy (by decide : (0 : Int) ≠ -ebusy)

theorem writeAll_gives (bufs : List Buffer) (dev : SvecDev) (h : Proc M)
    (hbusy : -ebusy ∈ (writeAll dev h bufs).1) : GivesWordUp h (writeAll dev h bufs).2.2 := by
  induction bufs generalizing dev h with
  | nil => exact absurd hbusy List.not_mem_nil
  | cons buf bufs ih =>
    rcases List.mem_cons.mp hbusy with hhead | hrest
    · obtain ⟨es, hes⟩ := feeding_writeAll bufs (SvecCore.svecFpgaWrite dev h buf).2.1
        (SvecCore.svecFpgaWrite dev h buf).2.2
      exact (writeBufLoop_gives buf dev h 0 hhead.symm).before hes
    · obtain ⟨es, hes⟩ := feeding_writeBufLoop buf dev h 0
      exact .after hes (ih _ _ hrest)

/-- `svec_fpga_write_stop` returns -EBUSY for its word only. -/
theorem writeStop_busy {rounds : ℕ} {info : FpgaImageInfo} {dev : SvecDev} {h : Proc M}
    (hbusy : (svecFpgaWriteStop rounds info dev h).1 = some (-ebusy)) : (lastWord dev h).1 = -ebusy := by
  unfold svecFpgaWriteStop at hbusy
  simp only at hbusy
  split at hbusy
  · exact Option.some.inj hbusy
  · split at hbusy
    · exact absurd hbusy (by simp)
    · have hbusy := Option.some.inj hbusy
      split at hbusy
      · exact absurd hbusy (by decide)
      · split at hbusy <;> exact absurd hbusy (by decide)

/-- A session feeds the FIFO from START to its end, and gives a word up on the way unless it is
never busy. -/
theorem session_feeds (h : Proc M) (bufs : List Buffer) (rounds : ℕ) (info : FpgaImageInfo) :
    ∃ g es, Feeding (svecFpgaWriteInit h).2.2 g es ∧ Ends g (session h bufs rounds info).after ∧
      ((session h bufs rounds info).NeverBusy ∨ GivesWordUp (svecFpgaWriteInit h).2.2 g) := by
  obtain ⟨es, hes⟩ := feeding_writeAll bufs (svecFpgaWriteInit h).2.1 (svecFpgaWriteInit h).2.2
  have hall := writeAll_gives bufs (svecFpgaWriteInit h).2.1 (svecFpgaWriteInit h).2.2
  have hafter : (session h bufs rounds info).after = (svecFpgaWriteStop rounds info
      (writeAll (svecFpgaWriteInit h).2.1 (svecFpgaWriteInit h).2.2 bufs).2.1
      (writeAll (svecFpgaWriteInit h).2.1 (svecFpgaWriteInit h).2.2 bufs).2.2).2.2 := rfl
  have hcomplete : (session h bufs rounds info).complete = (svecFpgaWriteStop rounds info
      (writeAll (svecFpgaWriteInit h).2.1 (svecFpgaWriteInit h).2.2 bufs).2.1
      (writeAll (svecFpgaWriteInit h).2.1 (svecFpgaWriteInit h).2.2 bufs).2.2).1 := rfl
  have hwrites : (session h bufs rounds info).writes =
      (writeAll (svecFpgaWriteInit h).2.1 (svecFpgaWriteInit h).2.2 bufs).1 := rfl
  generalize writeAll (svecFpgaWriteInit h).2.1 (svecFpgaWriteInit h).2.2 bufs = w at *
  obtain ⟨fs, hfs⟩ := feeding_writeWord w.2.2 w.2.1.bitstreamLastWord
    (w.2.1.bitstreamLastWordSize.toNat : Int) true
  obtain ⟨g, hg, hends⟩ := writeStop_ends rounds info w.2.1 w.2.2
  refine ⟨g, _, (hes.trans hfs).trans hg, hafter ▸ hends, ?_⟩
  by_cases hmem : -ebusy ∈ w.1
  · exact .inr ((hall hmem).before (hfs.trans hg))
  by_cases hlast : (lastWord w.2.1 w.2.2).1 = -ebusy
  · exact .inr (.after hes ((writeWord_gives w.2.2 _ _ true hlast).before hg))
  · refine .inl ⟨fun r hr hbusy => hmem ?_, fun hbusy => hlast (writeStop_busy (hcomplete ▸ hbusy))⟩
    rw [hwrites, hbusy] at hr
    exact hr

end Busy

/-! ## The card while the driver feeds it -/

section Card

variable {h g k : Proc (loaderCard F s₀ env)} {es : List FifoEntry}

/-- A program that feeds the FIFO pushes only where there is room. -/
theorem feeding_supplies (hg : Feeding h g es) : Supplies s₀ env h.st g.st es.length := by
  induction hg with
  | refl => exact Supplies.refl s₀ env h.st
  | read _ a ih => exact ih.trans (supplies_read _ a)
  | usleepRange _ lo hi ih =>
    exact ih.trans (supplies_access _ (gentle_quiet env _ _) fun hp => absurd hp Bool.false_ne_true)
  | getJiffies64 _ ih => exact ih
  | entry _ r0 r1 hfree ih =>
    rw [List.length_append]
    exact ih.trans (supplies_entry _ r0 r1 hfree)

theorem ends_grows (hends : Ends g k) : Grows env g.st k.st 0 := by
  have hexit := grows_write g csrExit (a := regCsr) (by decide)
  cases hends with
  | here => exact Grows.refl env g.st
  | exit => exact hexit
  | exitAndSleep => exact hexit.trans (grows_usleepRange _ 10000 20000)

theorem read_refused (h : Proc (loaderCard F s₀ env)) (a : Word) :
    CardState.refused h.st <+: CardState.refused (h.read a).2.st := by
  show _ <+: if _ then _ else _
  split
  · exact List.prefix_append _ _
  · exact List.prefix_refl _

/-- What was refused is known ever after. -/
theorem feeding_refused (hg : Feeding h g es) : CardState.refused h.st <+: CardState.refused g.st := by
  induction hg with
  | refl => exact List.prefix_refl _
  | read _ a ih => exact ih.trans (read_refused _ a)
  | usleepRange _ lo hi ih => exact ih
  | getJiffies64 _ ih => exact ih
  | entry _ r0 r1 _ ih =>
    rw [write_refused, write_refused]
    exact ih.trans (read_refused _ regFifoCsr)

theorem ends_refused (hends : Ends g k) : CardState.refused k.st = CardState.refused g.st := by
  cases hends with
  | here => rfl
  | exit => exact write_refused g csrExit regCsr
  | exitAndSleep => exact write_refused g csrExit regCsr

/-- A read that returns FULL is put down. -/
theorem read_full (h : Proc (loaderCard F s₀ env))
    (hfull : (h.read regFifoCsr).1.getLsbD fifoCsrFullBit = true) :
    CardState.refused (h.read regFifoCsr).2.st = CardState.refused h.st ++ [CardState.due env h.st] := by
  have hwr : F.wrFull (CardState.path F s₀ env h.st (CardState.due env h.st)).fifo = true :=
    (fifoCsr_full _).symm.trans hfull
  exact if_pos ⟨rfl, hwr⟩

theorem grows_pollFifoCsr (h : Proc (loaderCard F s₀ env)) (tries : ℕ) :
    Grows env h.st (pollFifoCsr h tries).2.st 0 := by
  obtain ⟨g, hg, hpoll⟩ := feeding_pollFifoCsr h tries
  rw [hpoll]
  exact (feeding_supplies (hg.read regFifoCsr)).toGrows

theorem read_free (h : Proc (loaderCard F s₀ env))
    (hfree : (h.read regFifoCsr).1.getLsbD fifoCsrFullBit = false) :
    CardState.refused (h.read regFifoCsr).2.st = CardState.refused h.st := by
  have hwr : F.wrFull (CardState.path F s₀ env h.st (CardState.due env h.st)).fifo = false :=
    (fifoCsr_full _).symm.trans hfree
  exact if_neg fun hc => absurd (hwr.symm.trans hc.2) (by decide)

theorem read_other (h : Proc (loaderCard F s₀ env)) {a : Word} (ha : a ≠ regFifoCsr) :
    CardState.refused (h.read a).2.st = CardState.refused h.st :=
  if_neg fun hc => ha hc.1

theorem read_wave (h : Proc (loaderCard F s₀ env)) (a : Word) :
    CardState.wave env (h.read a).2.st = CardState.wave env h.st :=
  wave_pause h.st

/-- The polls of one word in the cycles `l` and then `q`: those in `l` were refused, and the last one if
it read FULL as well. -/
structure Polls (env : Surroundings) (h g : Proc (loaderCard F s₀ env)) (tries : ℕ) (full : Bool)
    (l : List ℕ) (q : ℕ) : Prop where
  refused : CardState.refused g.st = CardState.refused h.st ++ (l ++ if full then [q] else [])
  few : l.length ≤ tries
  all : full = true → l.length = tries
  from_now : ∀ p ∈ l, CardState.now h.st ≤ p
  last_from_now : CardState.now h.st ≤ q
  before_last : ∀ p ∈ l, p < q
  spread : ∃ p ∈ l ++ [q], p + l.length ≤ q
  past : q < CardState.now g.st

theorem polls_once (h : Proc (loaderCard F s₀ env)) (tries : ℕ) {full : Bool}
    (hfull : (h.read regFifoCsr).1.getLsbD fifoCsrFullBit = full) (hall : full = true → 0 = tries) :
    Polls env h (h.read regFifoCsr).2 tries full [] (CardState.due env h.st) where
  refused := by
    cases full with
    | true => exact read_full h hfull
    | false => rw [read_free h hfull]; simp
  few := Nat.zero_le _
  all := hall
  from_now _ hp := absurd hp List.not_mem_nil
  last_from_now := now_le_due env h.st
  before_last _ hp := absurd hp List.not_mem_nil
  spread := ⟨_, List.mem_singleton_self _, Nat.le_refl _⟩
  past := Nat.lt_succ_self _

theorem pollFifoCsr_polls (h : Proc (loaderCard F s₀ env)) (tries : ℕ) :
    ∃ l q, Polls env h (pollFifoCsr h tries).2 tries
      ((pollFifoCsr h tries).1.getLsbD fifoCsrFullBit) l q := by
  induction tries generalizing h with
  | zero => exact ⟨[], _, polls_once h 0 rfl fun _ => rfl⟩
  | succ tries ih =>
    cases hfirst : (h.read regFifoCsr).1.getLsbD fifoCsrFullBit with
    | false =>
      have hstop : pollFifoCsr h (tries + 1) = h.read regFifoCsr := by
        rw [pollFifoCsr, hfirst]
        rfl
      rw [hstop, hfirst]
      exact ⟨[], _, polls_once h (tries + 1) hfirst fun hf => absurd hf (by decide)⟩
    | true =>
      have hgo : pollFifoCsr h (tries + 1) = pollFifoCsr (h.read regFifoCsr).2 tries := by
        rw [pollFifoCsr, hfirst]
        rfl
      rw [hgo]
      obtain ⟨l, q, hrest⟩ := ih (h.read regFifoCsr).2
      have hle : CardState.now h.st ≤ CardState.due env h.st := now_le_due env h.st
      have hnow : ∀ p, CardState.now (h.read regFifoCsr).2.st ≤ p → CardState.due env h.st < p :=
        fun p hp => hp
      have hq := hnow q hrest.last_from_now
      refine ⟨CardState.due env h.st :: l, q, ?_, Nat.succ_le_succ hrest.few,
        fun hf => congrArg (· + 1) (hrest.all hf), fun p hp => ?_, Nat.le_trans hle (Nat.le_of_lt hq),
        fun p hp => ?_, ⟨CardState.due env h.st, List.mem_cons_self .., ?_⟩, hrest.past⟩
      · rw [hrest.refused, read_full h hfirst]
        simp
      · rcases List.mem_cons.mp hp with rfl | hp
        · exact hle
        · exact Nat.le_trans hle (Nat.le_of_lt (hnow p (hrest.from_now p hp)))
      · rcases List.mem_cons.mp hp with rfl | hp
        · exact hq
        · exact hrest.before_last p hp
      · obtain ⟨p, hp, hspan⟩ := hrest.spread
        have hp : CardState.due env h.st < p := by
          rcases List.mem_append.mp hp with hp | hp
          · exact hnow p (hrest.from_now p hp)
          · rw [List.mem_singleton.mp hp]
            exact hq
        rw [List.length_cons]
        omega

end Card

/-! ## What the loader does meanwhile -/

/-- Cycle `q` is a poll for an entry for which 10000 polls were refused before, and it is refused as
well. -/
def Exhausted (env : Surroundings) (s : CardState) (q : ℕ) : Prop :=
  q ∈ s.refused ∧
    10000 ≤ s.refused.countP fun p => p < q ∧ pushed (s.wave env) p = pushed (s.wave env) q

/-- While nothing is pushed, a FIFO that is full at the end was full all the time, and was not read. -/
theorem unread_of_full {inp : ℕ → HostIn} {p q : ℕ} (hcap : fill s₀ ≤ 256)
    (hgentle : ∀ t, p ≤ t → t < q → Gentle (inp t)) (hpush : pushed inp p = pushed inp q)
    (hfull : F.wrFull (trace s₀ inp q).fifo = true) {t : ℕ} (hlow : p ≤ t) (hhigh : t < q) :
    F.wrFull (trace s₀ inp t).fifo = true ∧ (trace s₀ inp t).rd = false := by
  have hfill : ∀ t, p ≤ t → t ≤ q → 256 ≤ fill (trace s₀ inp t) := by
    intro t hlow hhigh
    have hgrow := @fill_add_pushed_le _ s₀ inp _ _ hhigh
    have hmono := pushed_mono inp hlow
    exact Nat.le_trans (wrFull_iff.mp hfull) (by omega)
  have hfull' := wrFull_iff.mpr (hfill t hlow (Nat.le_of_lt hhigh))
  refine ⟨hfull', ?_⟩
  by_contra hrd
  have hrd : (trace s₀ inp t).rd = true := by simpa using hrd
  obtain ⟨hrst, -, -, hclear⟩ := hgentle t hlow hhigh
  have hstep := fill_step (s := trace s₀ inp t) (i := (t, inp t)) hrst hclear
  rw [hrd, hfull'] at hstep
  have hcap' : fill (trace s₀ inp t) ≤ 256 := fill_le_cap hcap t
  have hnext : 256 ≤ fill ((trace s₀ inp t).step (t, inp t)) :=
    hfill (t + 1) (Nat.le_succ_of_le hlow) hhigh
  simp only [if_true, Bool.not_true, Bool.and_false, Bool.false_eq_true, if_false] at hstep
  omega

/-- A FIFO that is full for longer than an entry takes, outside the start-up and `GOT_DONE`: the
loader waits for the FPGA. -/
theorem waiting_of_full {inp : ℕ → HostIn} {c : BitVec 6} {p q : ℕ} (hcap : fill s₀ ≤ 256)
    (hspan : p + 8901 ≤ q) (hgentle : ∀ t, p ≤ t → t < q → Gentle (inp t))
    (hdiv : ∀ t, p ≤ t → t < q → (inp t).csrClkdiv = c) (hpush : pushed inp p = pushed inp q)
    (hfull : F.wrFull (trace s₀ inp q).fifo = true)
    (hstart : ∀ t, p ≤ t → t < q →
      (trace s₀ inp t).ldr.state ≠ .startupCclk0 ∧ (trace s₀ inp t).ldr.state ≠ .startupCclk1)
    (hgot : ∀ t, p ≤ t → t < q → (trace s₀ inp t).ldr.state ≠ .gotDone) :
    Waiting (trace s₀ inp (q - 1)).ldr := by
  have hstate : ∀ t, p ≤ t → t < q → ¬ Elsewhere (trace s₀ inp t).ldr := by
    intro t hlow hhigh hout
    obtain ⟨hfull', hrd⟩ := unread_of_full hcap hgentle hpush hfull hlow hhigh
    have hne : F.contents (trace s₀ inp t).fifo ≠ [] := by
      intro hnil
      have hfill := wrFull_iff.mp hfull'
      rw [fill, hnil] at hfill
      exact absurd hfill (by decide)
    have hread : ¬ ((trace s₀ inp t).ldr.state = .idle ∨ (trace s₀ inp t).ldr.state = .readFifo) :=
      fun hs => absurd (hrd.symm.trans (rd_iff.mpr ⟨hne, hs⟩)) (by decide)
    rcases hout with hs | hs | hs | hs | hs
    · exact hread (.inl hs)
    · exact hread (.inr hs)
    · exact hgot t hlow hhigh hs
    · exact (hstart t hlow hhigh).1 hs
    · exact (hstart t hlow hhigh).2 hs
  have hlast : q - 1 = p + (q - 1 - p) := by omega
  rw [hlast]
  refine waiting_of_unread (c := c) (fun k hk => ?_) (fun k hk => ?_) (by omega)
  · obtain ⟨hrst, hsw, -, -⟩ := hgentle (p + k) (Nat.le_add_right _ _) (by omega)
    exact ⟨⟨hrst, hsw⟩, hdiv (p + k) (Nat.le_add_right _ _) (by omega)⟩
  · exact hstate (p + k) (Nat.le_add_right _ _) (by omega)

section Given

variable {b s : CardState} {h₁ g k : Proc (loaderCard F s₀ env)} {es fs : List FifoEntry} {words : ℕ}

/-- From START on the loader is not in its start-up before EXIT. -/
theorem not_startup (hst : h₁.st = startState env b) (hup : Uploads s₀ env h₁.st k.st es)
    (hend : Grows env k.st s 0) {t : ℕ} (hlow : CardState.now h₁.st ≤ t) (hhigh : t ≤ CardState.now k.st) :
    (s.path F s₀ env t).ldr.state ≠ .startupCclk0 ∧ (s.path F s₀ env t).ldr.state ≠ .startupCclk1 := by
  induction hlow with
  | refl =>
    have hlt := swrst_lt_start env b
    have hstart := (after_start s₀ (by omega) (resetSequence env b)).1
    have hnow : swrstCycle env b + (startCycle env b - swrstCycle env b) + 1 = CardState.now h₁.st := by
      rw [hst, startState_now]
      omega
    have hpath : s.path F s₀ env (CardState.now h₁.st) = trace s₀ ((startState env b).wave env)
        (CardState.now h₁.st) := by
      refine run_congr fun t ht => ?_
      rw [hend.same t (Nat.lt_of_lt_of_le ht hhigh), hup.same t ht, hst]
    rw [hpath, ← hnow, hstart]
    decide
  | @step t hlow ih =>
    have htame : Tame (CardState.regs h₁.st) (s.wave env t) := by
      rw [hend.same t hhigh]
      exact hup.tame t hlow hhigh
    exact no_startup_step (i := (s.path F s₀ env t).loaderIn (s.wave env t)) htame.csrExit
      (ih (Nat.le_of_succ_le hhigh))

/-- For a word that is given up nothing is pushed from its first poll to its last, and the last one
found the polls exhausted. -/
theorem exhausted_of_givesWordUp (hgives : GivesWordUp h₁ k) (hends : Grows env k.st s 0)
    (hlog : s.refused = CardState.refused k.st) :
    ∃ p q, CardState.now h₁.st ≤ p ∧ p + 10000 ≤ q ∧ q < CardState.now k.st ∧
      pushed (s.wave env) p = pushed (s.wave env) q ∧ Exhausted env s q := by
  obtain ⟨g, es, fs, hes, hfull, hfs⟩ := hgives
  obtain ⟨l, q, polls⟩ := pollFifoCsr_polls g 10000
  have hquiet := grows_pollFifoCsr g 10000
  rw [hfull] at polls
  generalize (pollFifoCsr g 10000).2 = g₁ at *
  have hlen := polls.all rfl
  have hrest : Grows env g₁.st s _ := (feeding_supplies hfs).toGrows.trans hends
  -- Nothing is pushed while the driver polls.
  have hconst : ∀ t, CardState.now g.st ≤ t → t ≤ CardState.now g₁.st →
      pushed (s.wave env) t = pushed (CardState.wave env g.st) (CardState.now g.st) := by
    intro t hlow hhigh
    rw [hrest.pushed_eq hhigh]
    exact hquiet.pushed_const hlow hhigh
  have hpush : ∀ t, CardState.now g.st ≤ t → t ≤ q → pushed (s.wave env) t = pushed (s.wave env) q := by
    intro t hlow htq
    exact (hconst t hlow (Nat.le_trans htq (Nat.le_of_lt polls.past))).trans
      (hconst q polls.last_from_now (Nat.le_of_lt polls.past)).symm
  have hkeep : CardState.refused g.st ++ (l ++ [q]) <+: s.refused := by
    rw [hlog]
    exact polls.refused ▸ feeding_refused hfs
  obtain ⟨p, hp, hspan⟩ := polls.spread
  have hlow : CardState.now g.st ≤ p := by
    rcases List.mem_append.mp hp with hp | hp
    · exact polls.from_now p hp
    · rw [List.mem_singleton.mp hp]
      exact polls.last_from_now
  have hqmem : q ∈ l ++ [q] := List.mem_append_right _ (List.mem_singleton_self q)
  refine ⟨p, q, Nat.le_trans (feeding_supplies hes).le hlow, hlen ▸ hspan,
    Nat.lt_of_lt_of_le polls.past (feeding_supplies hfs).le, hpush p hlow (by omega),
    hkeep.subset (List.mem_append_right _ hqmem), ?_⟩
  have hsub : l.Sublist s.refused :=
    ((List.sublist_append_left l [q]).trans (List.sublist_append_right _ _)).trans hkeep.sublist
  have hcount := hsub.countP_le
    (p := fun p => decide (p < q ∧ pushed (s.wave env) p = pushed (s.wave env) q))
  rw [List.countP_eq_length.mpr fun p hp => ?_, hlen] at hcount
  · exact hcount
  · have hlt := polls.before_last p hp
    exact decide_eq_true ⟨hlt, hpush p (polls.from_now p hp) (Nat.le_of_lt hlt)⟩

/-- A word that the driver gives up on a card without a deadlock: the loader waits for the FPGA. -/
theorem waiting_of_givesWordUp (hcap : fill s₀ ≤ 256) (hst : h₁.st = startState env b)
    (hfeeds : Feeding h₁ k es) (hgives : GivesWordUp h₁ k) (hends : Grows env k.st s 0)
    (hlog : s.refused = CardState.refused k.st) (href : Refusals s₀ env words s)
    (hno : ∀ t, t ≤ s.now → AfterReset (s.wave env) t → ¬ Deadlock s₀ (s.wave env) words t) :
    ∃ q, Exhausted env s q ∧ Waiting (s.path F s₀ env (q - 1)).ldr := by
  obtain ⟨p, q, hlow, hspan, hq, hpush, hexhausted⟩ := exhausted_of_givesWordUp hgives hends hlog
  obtain ⟨hqs, hmore, hfull⟩ := href q hexhausted.1
  have hup : Uploads s₀ env h₁.st k.st es := hfeeds.uploads
  have htame : ∀ t, p ≤ t → t < q → Tame (CardState.regs h₁.st) (s.wave env t) := by
    intro t hpt htq
    rw [hends.same t (Nat.lt_trans htq hq)]
    exact hup.tame t (Nat.le_trans hlow hpt) (Nat.lt_trans htq hq)
  have hgentle : ∀ t, p ≤ t → t < q → Gentle (s.wave env t) := by
    intro t hpt htq
    have ht := htame t hpt htq
    exact ⟨ht.rstN, ht.csrSwrst, ht.csrExit, ht.fifoClearBus⟩
  have hreset : ∀ t, p ≤ t → AfterReset (s.wave env) t := by
    intro t hpt
    have hlt := swrst_lt_start env b
    have hnow₁ : CardState.now h₁.st = startCycle env b + 1 := by rw [hst, startState_now]
    have hle := hup.le
    refine ⟨swrstCycle env b, by omega, ?_⟩
    rw [hends.same _ (by omega), hup.same _ (by omega), hst, wave_at_swrst]
    rfl
  refine ⟨q, hexhausted, waiting_of_full hcap (by omega) hgentle
    (fun t hpt htq => (htame t hpt htq).csrClkdiv) hpush hfull (fun t hpt htq => ?_)
    (fun t hpt htq hgot => ?_)⟩
  · exact not_startup hst hup hends (Nat.le_trans hlow hpt) (by omega)
  · -- A loader that stands in `GOT_DONE` behind a full FIFO is the deadlock.
    have hfull' := (unread_of_full hcap hgentle hpush hfull hpt htq).1
    have hmono := pushed_mono (s.wave env) (Nat.le_of_lt htq)
    exact hno t (by omega) (hreset t hpt)
      ⟨Nat.lt_of_le_of_lt hmono hmore, hfull', readsNoMore_of_gotDone hgot⟩

end Given

/-! ## A session without -EBUSY -/

/-- The polls that were refused when `w` entries had been pushed. -/
def refusalsAt (env : Surroundings) (s : CardState) (w : ℕ) : ℕ :=
  s.refused.countP fun p => pushed (s.wave env) p = w

/-- No entry was refused more often than the driver asks again, and the next one not yet. -/
structure Fresh (env : Surroundings) (s : CardState) : Prop where
  past : ∀ p ∈ s.refused, p < s.now
  bounded : ∀ w, refusalsAt env s w ≤ 10000
  next : refusalsAt env s (pushed (s.wave env) s.now) = 0

/-- From `s` to `s'` a program pushes `n` entries, and gives no word up. -/
def Serves (env : Surroundings) (s s' : CardState) (n : ℕ) : Prop :=
  Grows env s s' n ∧ (Fresh env s → Fresh env s')

section Serves

variable {s s' s'' : CardState} {l : List ℕ} {m n : ℕ}

theorem Serves.refl (env : Surroundings) (s : CardState) : Serves env s s 0 := ⟨Grows.refl env s, id⟩

theorem Serves.trans (h : Serves env s s' m) (h' : Serves env s' s'' n) : Serves env s s'' (m + n) :=
  ⟨h.1.trans h'.1, fun hf => h'.2 (h.2 hf)⟩

theorem refusalsAt_grows (hg : Grows env s s' n) (hpast : ∀ p ∈ s.refused, p < s.now) (w : ℕ) :
    s.refused.countP (fun p => pushed (s'.wave env) p = w) = refusalsAt env s w := by
  refine List.countP_congr fun p hp => ?_
  rw [hg.pushed_eq (Nat.le_of_lt (hpast p hp))]

theorem Fresh.later (h : Fresh env s) {w : ℕ} (hw : pushed (s.wave env) s.now < w) :
    refusalsAt env s w = 0 := by
  refine List.countP_eq_zero.mpr fun p hp => ?_
  have hmono := pushed_mono (s.wave env) (Nat.le_of_lt (h.past p hp))
  simp only [decide_eq_true_eq]
  omega

/-- The refusals of one entry, which is pushed then. -/
theorem serves_of_refusals (hg : Grows env s s' n) (hl : s'.refused = s.refused ++ l)
    (hpush : ∀ p ∈ l, p < s'.now ∧ pushed (s'.wave env) p = pushed (s.wave env) s.now)
    (hfew : l.length ≤ 10000) (hn : l = [] ∨ 0 < n) : Serves env s s' n := by
  have hsplit : ∀ w, Fresh env s → refusalsAt env s' w = refusalsAt env s w +
      l.countP (fun p => pushed (s'.wave env) p = w) := by
    intro w hf
    rw [refusalsAt, hl, List.countP_append, refusalsAt_grows hg hf.past]
  have hnone : ∀ w, w ≠ pushed (s.wave env) s.now →
      l.countP (fun p => pushed (s'.wave env) p = w) = 0 := by
    intro w hw
    refine List.countP_eq_zero.mpr fun p hp => ?_
    simp only [decide_eq_true_eq]
    rw [(hpush p hp).2]
    exact hw.symm
  refine ⟨hg, fun hf => ⟨fun p hp => ?_, fun w => ?_, ?_⟩⟩
  · rcases List.mem_append.mp (hl ▸ hp) with hp | hp
    · exact Nat.lt_of_lt_of_le (hf.past p hp) hg.le
    · exact (hpush p hp).1
  · rw [hsplit w hf]
    by_cases hw : w = pushed (s.wave env) s.now
    · rw [hw, hf.next, Nat.zero_add]
      exact Nat.le_trans List.countP_le_length hfew
    · rw [hnone w hw]
      exact hf.bounded w
  · rw [hsplit _ hf, hg.count]
    rcases hn with rfl | hn
    · cases n with
      | zero => exact hf.next
      | succ n => exact hf.later (by omega)
    · rw [hf.later (by omega), hnone _ (by omega)]

/-- Where nothing is refused. -/
theorem serves_of_grows (hg : Grows env s s' n) (hsame : s'.refused = s.refused) : Serves env s s' n :=
  serves_of_refusals hg (l := []) (by rw [hsame, List.append_nil]) (fun _ hp => absurd hp List.not_mem_nil)
    (Nat.zero_le _) (.inl rfl)

/-- No entry of a session that serves was asked for in vain so often. -/
theorem Fresh.not_exhausted (h : Fresh env s) (q : ℕ) : ¬ Exhausted env s q := by
  rintro ⟨hq, hmany⟩
  obtain ⟨before, after, hsplit⟩ := List.append_of_mem hq
  have hbound := h.bounded (pushed (s.wave env) q)
  have hless : ∀ l : List ℕ,
      l.countP (fun p => p < q ∧ pushed (s.wave env) p = pushed (s.wave env) q) ≤
        l.countP (fun p => pushed (s.wave env) p = pushed (s.wave env) q) := by
    intro l
    refine List.countP_mono_left fun p _ hp => ?_
    exact decide_eq_true (of_decide_eq_true hp).2
  have hb := hless before
  have ha := hless after
  rw [refusalsAt, hsplit, List.countP_append, List.countP_cons] at hbound
  rw [hsplit, List.countP_append, List.countP_cons] at hmany
  simp only [Nat.lt_irrefl, false_and, decide_false, decide_true, if_true, if_false,
    Bool.false_eq_true] at hbound hmany
  omega

end Serves

section Programs

variable {h : Proc (loaderCard F s₀ env)} {dev : SvecDev}

/-- One word that is not given up. -/
theorem serves_writeWord (h : Proc (loaderCard F s₀ env)) (dev : SvecDev) (isLast : Bool)
    (hok : (svecFpgaWriteWord h dev.bitstreamLastWord (dev.bitstreamLastWordSize.toNat : Int) isLast).1 ≠
      -ebusy) :
    let r := svecFpgaWriteWord h dev.bitstreamLastWord (dev.bitstreamLastWordSize.toNat : Int) isLast
    Serves env h.st r.2.st (held dev) ∧ (r.1 = 0 ∨ r.1 = -einval ∧ ¬ Holding dev) := by
  intro r
  by_cases hold : Holding dev
  swap
  · have hsize : (dev.bitstreamLastWordSize.toNat : Int) ≤ 0 ∨
        5 ≤ (dev.bitstreamLastWordSize.toNat : Int) := by
      unfold Holding at hold
      omega
    have hr : r = (-einval, h) := if_pos hsize
    have hnone : held dev = 0 := if_neg hold
    rw [hr, hnone]
    exact ⟨Serves.refl env h.st, .inr ⟨rfl, hold⟩⟩
  · have hsize : ¬ ((dev.bitstreamLastWordSize.toNat : Int) ≤ 0 ∨
        5 ≤ (dev.bitstreamLastWordSize.toNat : Int)) := by
      unfold Holding at hold
      omega
    have hone : held dev = 1 := if_pos hold
    cases hfull : (pollFifoCsr h 10000).1.getLsbD fifoCsrFullBit with
    | true =>
      refine absurd ?_ hok
      simp only [svecFpgaWriteWord, if_neg hsize, hfull, if_true]
    | false =>
      obtain ⟨l, q, polls⟩ := pollFifoCsr_polls h 10000
      have hquiet := grows_pollFifoCsr h 10000
      rw [hfull] at polls
      simp only [r, svecFpgaWriteWord, if_neg hsize, hfull, Bool.false_eq_true, if_false, hone]
      generalize (pollFifoCsr h 10000).2 = g at *
      generalize (BitVec.ofInt 32 ((dev.bitstreamLastWordSize.toNat : Int) - 1) &&& 0x3#32) |||
        (if isLast then fifoR0Xlast else 0#32) = r0
      have hpush : Grows env g.st ((g.write r0 regFifoR0).write (htonl dev.bitstreamLastWord) regFifoR1).st 1 :=
        (grows_write g r0 (by decide)).trans (grows_push _ _)
      refine ⟨serves_of_refusals (hquiet.trans hpush) (l := l) ?_ (fun p hp => ?_) polls.few
        (.inr (by decide)), .inl trivial⟩
      · rw [write_refused, write_refused, polls.refused]
        simp
      · have hlow := polls.from_now p hp
        have hhigh : p < CardState.now g.st := Nat.lt_trans (polls.before_last p hp) polls.past
        refine ⟨Nat.lt_of_lt_of_le hhigh hpush.le, ?_⟩
        rw [hpush.pushed_eq (Nat.le_of_lt hhigh)]
        exact hquiet.pushed_const hlow (Nat.le_of_lt hhigh)

/-- The loop over a buffer, if no word is given up. -/
theorem serves_writeBufLoop (buf : Buffer) (dev : SvecDev) (h : Proc (loaderCard F s₀ env)) (i : ℕ)
    (hi : Aligned buf.bytes.length i) (hold : i ≠ 0 → Holding dev)
    (hok : (writeBufLoop buf dev h i).1 ≠ -ebusy) :
    ∃ n, Serves env h.st (writeBufLoop buf dev h i).2.2.st n ∧
      n + held (writeBufLoop buf dev h i).2.1 = held dev + wordsFrom (taken buf).length i := by
  have htaken : (taken buf).length = min (2 ^ 31) buf.bytes.length := List.length_take
  induction dev, h, i using Svec.Host.SvecCore.writeBufLoop.induct buf with
  | case1 dev h i hlt word hstop =>
    rw [writeBufLoop, if_pos hlt] at hok
    simp only at hok
    rw [if_pos hstop] at hok
    obtain ⟨-, hword⟩ := serves_writeWord h dev false hok
    exfalso
    rcases hword with hzero | ⟨hinval, hno⟩
    · exact hstop.1 hzero
    · exact hstop.2 ⟨hinval, by_contra fun hne => hno (hold hne)⟩
  | case2 dev h i hlt word hgo n ih =>
    rw [writeBufLoop, if_pos hlt] at hok ⊢
    simp only at hok ⊢
    rw [if_neg hgo] at hok ⊢
    have hbusy : word.1 ≠ -ebusy := by
      intro hbusy
      refine hgo ⟨by rw [hbusy]; decide, fun hc => ?_⟩
      exact absurd (hbusy.symm.trans hc.1) (by decide)
    obtain ⟨hword, -⟩ := serves_writeWord h dev false hbusy
    have hdvd : 4 ∣ i := hi.resolve_right (by omega)
    have hn : n = if buf.bytes.length - i > 4 then 4 else buf.bytes.length - i := rfl
    obtain ⟨hn1, hn4, hend, hnext⟩ := chunk_range hlt.2 hn
    obtain ⟨hhold', -⟩ := pending_chunk buf hdvd hn1 hn4 hend
    obtain ⟨m, hrest, hcount⟩ := ih (hnext hdvd) (fun _ => hhold') hok
    have hone : held ⟨buf.load (4 * (i >>> 2)), BitVec.ofNat 32 n⟩ = 1 := if_pos hhold'
    have hwords : 1 + wordsFrom (taken buf).length (i + n) = wordsFrom (taken buf).length i := by
      unfold wordsFrom
      rw [htaken, hn]
      split <;> omega
    refine ⟨_, hword.trans hrest, ?_⟩
    rw [hone] at hcount
    rw [Nat.add_assoc]
    exact congrArg (held dev + ·) (hcount.trans hwords)
  | case3 dev h i hend =>
    rw [writeBufLoop, if_neg hend]
    have hnone : wordsFrom (taken buf).length i = 0 := by
      unfold wordsFrom
      omega
    exact ⟨0, Serves.refl env h.st, by rw [hnone, Nat.zero_add, Nat.add_zero]⟩

theorem serves_writeAll (bufs : List Buffer) (dev : SvecDev) (h : Proc (loaderCard F s₀ env))
    (hok : ∀ r ∈ (writeAll dev h bufs).1, r ≠ -ebusy) :
    ∃ n, Serves env h.st (writeAll dev h bufs).2.2.st n ∧
      n + held (writeAll dev h bufs).2.1 = held dev + driverWords bufs := by
  induction bufs generalizing dev h with
  | nil => exact ⟨0, Serves.refl env h.st, Nat.zero_add _⟩
  | cons buf bufs ih =>
    obtain ⟨m, hbuf, hm⟩ := serves_writeBufLoop buf dev h 0 (.inl (Nat.dvd_zero 4))
      (fun hne => absurd rfl hne) (hok _ (List.mem_cons_self ..))
    obtain ⟨n, hrest, hn⟩ := ih (SvecCore.svecFpgaWrite dev h buf).2.1
      (SvecCore.svecFpgaWrite dev h buf).2.2 fun r hr => hok r (List.mem_cons_of_mem _ hr)
    have hm : m + held (SvecCore.svecFpgaWrite dev h buf).2.1 =
        held dev + wordsFrom (taken buf).length 0 := hm
    have hsum : driverWords (buf :: bufs) = wordsFrom (taken buf).length 0 + driverWords bufs := rfl
    refine ⟨m + n, hbuf.trans hrest, ?_⟩
    have hn : n + held (writeAll dev h (buf :: bufs)).2.1 = _ := hn
    omega

/-- The wait for DONE reads no `FIFO_CSR`. -/
theorem serves_waitDone (h : Proc (loaderCard F s₀ env)) (timeout : BitVec 64) (rval : Word) (rounds : ℕ) :
    Serves env h.st (SvecCore.waitDone h timeout rval rounds).2.st 0 := by
  induction rounds generalizing h rval with
  | zero => exact Serves.refl env h.st
  | succ rounds ih =>
    have hread : Serves env h.st (h.getJiffies64.2.read regCsr).2.st 0 :=
      serves_of_grows (grows_read h.getJiffies64.2 regCsr) (read_other h.getJiffies64.2 (by decide))
    unfold SvecCore.waitDone
    simp only
    split
    · split
      · exact hread
      · exact hread.trans ((serves_of_grows (grows_usleepRange _ 900 1100) rfl).trans (ih _ _))
    · exact Serves.refl env h.st

theorem serves_writeStop (rounds : ℕ) (info : FpgaImageInfo) (dev : SvecDev)
    (h : Proc (loaderCard F s₀ env))
    (hok : (svecFpgaWriteStop rounds info dev h).1 ≠ some (-ebusy)) :
    Serves env h.st (svecFpgaWriteStop rounds info dev h).2.2.st (held dev) := by
  have hexit : ∀ h' : Proc (loaderCard F s₀ env),
      Serves env h'.st ((h'.write csrExit regCsr).usleepRange 10000 20000).st 0 := by
    intro h'
    exact (serves_of_grows (grows_write h' csrExit (by decide)) (write_refused h' csrExit regCsr)).trans
      (serves_of_grows (grows_usleepRange _ 10000 20000) rfl)
  obtain ⟨hword, -⟩ := serves_writeWord h dev true fun hbusy =>
    hok (Stream.svecFpgaWriteStop_ebusy rounds info hbusy)
  unfold svecFpgaWriteStop
  simp only
  split
  · exact hword.trans (hexit _)
  · have hwait := fun timeout => hword.trans (serves_waitDone (svecFpgaWriteWord h dev.bitstreamLastWord
      (dev.bitstreamLastWordSize.toNat : Int) true).2.getJiffies64.2 timeout 0#32 rounds)
    split
    · exact hwait _
    · exact (hwait _).trans (hexit _)

/-- A session that is never busy pushes every word, and none was asked for too often. -/
theorem serves_session (h : Proc (loaderCard F s₀ env)) (bufs : List Buffer) (rounds : ℕ)
    (info : FpgaImageInfo) (hok : (session h bufs rounds info).NeverBusy) :
    Serves env (svecFpgaWriteInit h).2.2.st (session h bufs rounds info).after.st (driverWords bufs) := by
  obtain ⟨n, hall, hn⟩ := serves_writeAll bufs .cleared (svecFpgaWriteInit h).2.2 hok.1
  have hnone : held .cleared = 0 := if_neg Stream.not_holding_cleared
  have hsum : n + held (writeAll .cleared (svecFpgaWriteInit h).2.2 bufs).2.1 = driverWords bufs := by
    rw [hn, hnone, Nat.zero_add]
  rw [← hsum]
  exact hall.trans (serves_writeStop rounds info _ _ hok.2)

theorem startState_refused (b : CardState) : (startState env b).refused = b.refused := rfl

/-- `svec_fpga_write_init` finds no FIFO full, for it asks none. -/
theorem unlocked_refused (h : Proc (loaderCard F s₀ env)) :
    (unlocked h).refused = CardState.refused h.st ∧ (unlocked h).wave env = CardState.wave env h.st := by
  have hreset : ∀ (seq : List Word) (h : Proc (loaderCard F s₀ env)),
      CardState.refused (seq.foldl (fun h b => (h.write b regBtrigr).mdelay 1) h).st =
          CardState.refused h.st ∧
        CardState.wave env (seq.foldl (fun h b => (h.write b regBtrigr).mdelay 1) h).st =
          CardState.wave env h.st := by
    intro seq
    induction seq with
    | nil => exact fun h => ⟨rfl, rfl⟩
    | cons v seq ih =>
      intro h
      obtain ⟨hrefused, hwave⟩ := ih ((h.write v regBtrigr).mdelay 1)
      exact ⟨hrefused, hwave.trans ((wave_pause (CardState.pause env h.st)).trans (wave_pause h.st))⟩
  obtain ⟨hrefused, hwave⟩ := hreset SvecCore.bootUnlockSequence h
  have hcsr := read_other (svecFpgaReset h).2 (a := regCsr) (by decide)
  have hidr := read_other ((svecFpgaReset h).2.read regCsr).2 (a := regIdr) (by decide)
  have hcsrWave := read_wave (svecFpgaReset h).2 regCsr
  have hidrWave := read_wave ((svecFpgaReset h).2.read regCsr).2 regIdr
  exact ⟨hidr.trans (hcsr.trans hrefused), hidrWave.trans (hcsrWave.trans hwave)⟩

end Programs

/-! ## The driver -/

/-- Where the polls of an entry are exhausted, the loader does not wait for the FPGA. -/
def Attended (F : FifoSync Stamped 256) (s₀ : HostPath F) (env : Surroundings) (s : CardState) : Prop :=
  ∀ q, Exhausted env s q → ¬ Waiting (s.path F s₀ env (q - 1)).ldr

/-- A program that pushes all its words, each into room: a loader that gives the load up on the way
leaves no more than fits. -/
theorem givesUpInTime_of_supplies {s₁ s₂ s : CardState} {e n words : ℕ} (hcap : fill s₀ ≤ 256)
    (begins : Begins s₀ env e s₁) (hsup : Supplies s₀ env s₁ s₂ n) (hend : Grows env s₂ s 0)
    (hall : pushed (s.wave env) s.now = words) : GivesUpInTime s₀ (s.wave env) words s.now := by
  intro u hu hreset hgives
  have hlow := begins.now_le (hsup.toGrows.trans hend) hreset hgives
  have hcap' : fill (trace s₀ (s.wave env) u) ≤ 256 := fill_le_cap hcap u
  rw [hend.count] at hall
  rcases Nat.lt_or_ge u s₂.now with hlt | hge
  · have hpath : trace s₀ (s.wave env) u = s₂.path F s₀ env u := hend.path_eq (Nat.le_of_lt hlt)
    rw [hend.same u hlt, hpath] at hgives
    rw [hpath] at hcap'
    obtain ⟨-, hkeep⟩ := stands_of_givesUp hsup hlow hlt hgives
    have hfull : fill (s₂.path F s₀ env s₂.now) ≤ 256 := fill_le_cap hcap _
    rw [hpath, hend.pushed_eq (Nat.le_of_lt hlt)]
    omega
  · -- Nothing is left to push.
    have hmono := hend.le_pushed hge
    omega

section Driver

variable (bufs : List Buffer) (rounds : ℕ) (info : FpgaImageInfo)

/-- A driver that is not left alone with a waiting loader gives no word up. -/
theorem neverBusy_of_attended (hcap : fill s₀ ≤ 256)
    (htime : (Loading.driver bufs rounds info).InTime F s₀ env)
    (hattended : Attended F s₀ env ((Loading.driver bufs rounds info).final F s₀ env)) :
    (session (begin F s₀ env) bufs rounds info).NeverBusy := by
  obtain ⟨g, es, hfeeds, hends, hgives⟩ := session_feeds (begin F s₀ env) bufs rounds info
  refine hgives.resolve_right fun hgives => ?_
  obtain ⟨q, hexhausted, hwaits⟩ := waiting_of_givesWordUp hcap (svecFpgaWriteInit_st _) hfeeds hgives
    (ends_grows hends) (ends_refused hends) (Loading.driver bufs rounds info).refusals
    (Loading.free_of_inTime htime).noDeadlock
  exact hattended q hexhausted hwaits

theorem inTime_of_neverBusy (hcap : fill s₀ ≤ 256)
    (hok : (session (begin F s₀ env) bufs rounds info).NeverBusy) :
    (Loading.driver bufs rounds info).InTime F s₀ env := by
  obtain ⟨g, es, hfeeds, hends, -⟩ := session_feeds (begin F s₀ env) bufs rounds info
  have hserves := (serves_session (begin F s₀ env) bufs rounds info hok).1
  obtain ⟨n, hinit, hn, -⟩ := spends_writeInit (begin F s₀ env) 0
  obtain rfl : n = 0 := by omega
  have begins : Begins s₀ env (swrstCycle env (unlocked (begin F s₀ env)))
      (svecFpgaWriteInit (begin F s₀ env)).2.2.st := by
    rw [svecFpgaWriteInit_st]
    refine begins_of_accesses (fun t => ?_) (show csrSwrst.getLsbD 5 = true by decide)
      (show (csrStart ||| csrMsbf).getLsbD 5 = false by decide)
    rw [(unlocked_refused (begin F s₀ env)).2]
    rfl
  have hall : pushed (CardState.wave env (session (begin F s₀ env) bufs rounds info).after.st)
      (CardState.now (session (begin F s₀ env) bufs rounds info).after.st) = driverWords bufs := by
    rw [hserves.count, hinit.count]
    exact Nat.zero_add _
  exact givesUpInTime_of_supplies hcap begins (feeding_supplies hfeeds) (ends_grows hends) hall

theorem not_exhausted_of_neverBusy (hok : (session (begin F s₀ env) bufs rounds info).NeverBusy) (q : ℕ) :
    ¬ Exhausted env ((Loading.driver bufs rounds info).final F s₀ env) q := by
  have hnone : CardState.refused (svecFpgaWriteInit (begin F s₀ env)).2.2.st = [] := by
    rw [svecFpgaWriteInit_st, startState_refused, (unlocked_refused (begin F s₀ env)).1]
    rfl
  have hzero : ∀ w, refusalsAt env (svecFpgaWriteInit (begin F s₀ env)).2.2.st w = 0 :=
    fun w => congrArg (List.countP _) hnone
  have hfresh : Fresh env (svecFpgaWriteInit (begin F s₀ env)).2.2.st :=
    ⟨fun p hp => absurd (hnone ▸ hp) List.not_mem_nil, fun w => by rw [hzero w]; exact Nat.zero_le _,
      hzero _⟩
  exact ((serves_session (begin F s₀ env) bufs rounds info hok).2 hfresh).not_exhausted q

end Driver

/-- Neither program deadlocks with the loader if what the loader has not taken, when it gives the load
up, fits into the FIFO, and the flasher only then.  The driver never returns -EBUSY besides exactly if
in addition no word is given up while the loader waits for the FPGA. -/
theorem no_deadlock_iff (F : FifoSync Stamped 256) (s₀ : HostPath F) (env : Surroundings)
    (hcap : fill s₀ ≤ 256) :
    (∀ l : Loading, l.InTime F s₀ env → l.Free F s₀ env) ∧
      (∀ buf, (∀ polls rounds, (Loading.flasher buf polls rounds).Free F s₀ env) ↔
        ∀ polls rounds, (Loading.flasher buf polls rounds).InTime F s₀ env) ∧
      ∀ bufs rounds info,
        ((Loading.driver bufs rounds info).Free F s₀ env ∧
            (session (begin F s₀ env) bufs rounds info).NeverBusy) ↔
          (Loading.driver bufs rounds info).InTime F s₀ env ∧
            Attended F s₀ env ((Loading.driver bufs rounds info).final F s₀ env) := by
  refine ⟨fun l => Loading.free_of_inTime, flasher_free_iff hcap, fun bufs rounds info =>
    ⟨fun h => ⟨inTime_of_neverBusy bufs rounds info hcap h.2, fun q hq => ?_⟩, fun h =>
      ⟨Loading.free_of_inTime h.1, neverBusy_of_attended bufs rounds info hcap h.1 h.2⟩⟩⟩
  exact absurd hq (not_exhausted_of_neverBusy bufs rounds info h.2 q)

theorem no_deadlock_iff_earlyDone :
    (∀ l : Loading, l.InTime _ idlePath earlyDone → l.Free _ idlePath earlyDone) ∧
      (∀ buf, (∀ polls rounds, (Loading.flasher buf polls rounds).Free _ idlePath earlyDone) ↔
        ∀ polls rounds, (Loading.flasher buf polls rounds).InTime _ idlePath earlyDone) ∧
      ∀ bufs rounds info,
        ((Loading.driver bufs rounds info).Free _ idlePath earlyDone ∧
            (session (begin _ idlePath earlyDone) bufs rounds info).NeverBusy) ↔
          (Loading.driver bufs rounds info).InTime _ idlePath earlyDone ∧
            Attended _ idlePath earlyDone ((Loading.driver bufs rounds info).final _ idlePath earlyDone) :=
  no_deadlock_iff _ idlePath earlyDone (by decide)

end Svec.Host.Retries
