/-
  Host/Deadlock.lean --- the host waits for the FIFO, and the loader for the host.

  The loader stops in `GOT_DONE` when it sees DONE and reads the FIFO no more before
  EXIT; the host writes EXIT when it has pushed everything.  What the loader has not
  taken when it stops must fit into the FIFO: then no program ever waits for the
  FIFO in vain, and otherwise the flasher does.
-/
import Svec.Host.LoaderCard

set_option autoImplicit false

namespace Svec.Host.Deadlock

open Svec.Data Svec.Sync Svec.Hdl Svec.Host Svec.Host.LoaderCard Svec.Loader.Session
  Svec.Loader.Stuck
open Svec.Host.SvecCore (FpgaImageInfo SvecDev svecFpgaWriteWord writeBufLoop)
open Svec.Host.SvecFlasher (fifoLoop startAfpga statusLoop programAfpga csrReadl_eq_read
  csrWritel_eq_write)
open Svec.Host.Stream (Holding taken writeAll session)

variable {F : FifoSync Stamped 256} {s₀ : HostPath F} {env : Surroundings}

/-- The entries for the bytes of a buffer of length `len` from offset `i` on. -/
def wordsFrom (len i : ℕ) : ℕ := (len - i + 3) / 4

/-! ## The flasher -/

/-- An offset that the loops reach: a multiple of four, or the end. -/
def Aligned (len i : ℕ) : Prop := 4 ∣ i ∨ len ≤ i

/-- One round of the FIFO loop: the FIFO is full, or an entry goes out. -/
theorem fifoLoop_round (h : Proc (loaderCard F s₀ env)) (buf : Buffer) {i : ℕ}
    (hi : Aligned buf.bytes.length i) (hlt : i < buf.bytes.length) :
    (F.wrFull (h.st.path F s₀ env (h.st.due env)).fifo = true ∧
        ∀ polls, fifoLoop buf (polls + 1) h i = fifoLoop buf polls (h.read regFifoCsr).2 i) ∨
      ∃ h' i', F.wrFull (h.st.path F s₀ env (h.st.due env)).fifo = false ∧
        (∀ polls, fifoLoop buf (polls + 1) h i = fifoLoop buf polls h' i') ∧
        Supplies s₀ env h.st h'.st 1 ∧ Aligned buf.bytes.length i' ∧
        wordsFrom buf.bytes.length i = wordsFrom buf.bytes.length i' + 1 ∧
        ∀ words, Refusals s₀ env words h.st → pushed (h.st.wave env) h.st.now < words →
          Refusals s₀ env words h'.st := by
  have hbit : (h.read regFifoCsr).1.getLsbD fifoCsrFullBit =
      F.wrFull (h.st.path F s₀ env (h.st.due env)).fifo := fifoCsr_full _
  cases hfull : F.wrFull (h.st.path F s₀ env (h.st.due env)).fifo with
  | true =>
    rw [hfull] at hbit
    refine .inl ⟨rfl, fun polls => ?_⟩
    conv_lhs => unfold fifoLoop
    simp only [if_pos hlt, csrReadl_eq_read, hbit, Bool.not_true, Bool.false_eq_true, if_false]
  | false =>
    rw [hfull] at hbit
    have hdvd : 4 ∣ i := hi.resolve_right (Nat.not_le.mpr hlt)
    obtain ⟨n, hn⟩ : ∃ n, n = if buf.bytes.length - i > 4 then 4 else buf.bytes.length - i := ⟨_, rfl⟩
    refine .inr ⟨_, i + n, rfl, fun polls => ?_, supplies_entry h
      (BitVec.ofNat 32 (n - 1) ||| (if n < 4 then fifoR0Xlast else 0#32)) (htonl (buf.load i)) hbit,
      ?_, ?_, fun words hr hmore => ((hr.read hmore).write _ _).write _ _⟩
    · conv_lhs => unfold fifoLoop
      simp only [if_pos hlt, csrReadl_eq_read, csrWritel_eq_write, hbit, Bool.not_false, if_true, ← hn]
    · obtain ⟨-, -, -, hnext⟩ := chunk_range hlt hn
      exact hnext hdvd
    · unfold wordsFrom
      rw [hn]
      split <;> omega

/-- What a number of rounds of the FIFO loop do: they push the words up to some offset `i'`,
from which further rounds go on. -/
theorem fifoLoop_supplies (buf : Buffer) (words polls : ℕ) (h : Proc (loaderCard F s₀ env)) (i : ℕ)
    (hi : Aligned buf.bytes.length i) (hr : Refusals s₀ env words h.st)
    (hcount : pushed (h.st.wave env) h.st.now + wordsFrom buf.bytes.length i = words) :
    ∃ i' n, Aligned buf.bytes.length i' ∧
      (∀ more, fifoLoop buf (polls + more) h i = fifoLoop buf more (fifoLoop buf polls h i).2 i') ∧
      Supplies s₀ env h.st (fifoLoop buf polls h i).2.st n ∧
      wordsFrom buf.bytes.length i = wordsFrom buf.bytes.length i' + n ∧
      ((fifoLoop buf polls h i).1 = true ↔ buf.bytes.length ≤ i') ∧
      Refusals s₀ env words (fifoLoop buf polls h i).2.st := by
  induction polls generalizing h i with
  | zero =>
    refine ⟨i, 0, hi, fun more => ?_, Supplies.refl s₀ env h.st, rfl, ?_, hr⟩
    · rw [Nat.zero_add]
      rfl
    · exact decide_eq_true_iff
  | succ polls ih =>
    by_cases hlt : i < buf.bytes.length
    swap
    · have hstay : ∀ more, fifoLoop buf (more + 1) h i = (true, h) := by
        intro more
        unfold fifoLoop
        exact if_neg hlt
      have hend : ∀ more, fifoLoop buf more h i = (true, h) := by
        intro more
        cases more with
        | zero => exact Prod.ext (decide_eq_true (Nat.not_lt.mp hlt)) rfl
        | succ more => exact hstay more
      rw [hstay]
      refine ⟨i, 0, hi, fun more => ?_, Supplies.refl s₀ env h.st, rfl,
        iff_of_true rfl (Nat.not_lt.mp hlt), hr⟩
      rw [hend, hend]
    have hmore : pushed (h.st.wave env) h.st.now < words := by
      unfold wordsFrom at hcount
      omega
    rcases fifoLoop_round h buf hi hlt with ⟨-, hgo⟩ | ⟨h', i₁, -, hgo, hsup, hi₁, hword, hrefused⟩
    · have hread := supplies_read h regFifoCsr
      obtain ⟨i', n, hi', hrest, hsup', hwords, hdone, hr'⟩ := ih (h.read regFifoCsr).2 i hi
        (hr.read hmore) (by rw [hread.count, Nat.add_zero]; exact hcount)
      rw [hgo]
      refine ⟨i', n, hi', fun more => ?_, by simpa using hread.trans hsup', hwords, hdone, hr'⟩
      rw [Nat.add_right_comm, hgo, hrest]
    · obtain ⟨i', n, hi', hrest, hsup', hwords, hdone, hr'⟩ := ih h' i₁ hi₁ (hrefused words hr hmore)
        (by rw [hsup.count]; omega)
      rw [hgo]
      refine ⟨i', 1 + n, hi', fun more => ?_, hsup.trans hsup', by omega, hdone, hr'⟩
      rw [Nat.add_right_comm, hgo, hrest]

/-! ## What a program may push -/

/-- From `s` to `s'` a program that may push `b` entries at most pushes some of them, and has
`b'` left; it is refused only while it has one. -/
def Spends (s₀ : HostPath F) (env : Surroundings) (s s' : CardState) (b b' : ℕ) : Prop :=
  ∃ n, Grows env s s' n ∧ n + b' ≤ b ∧ ∀ words, Refusals s₀ env words s →
    pushed (s.wave env) s.now + b ≤ words → Refusals s₀ env words s'

section Spends

variable {s s' s'' : CardState} {b b' b'' : ℕ}

theorem Spends.trans (h : Spends s₀ env s s' b b') (h' : Spends s₀ env s' s'' b' b'') :
    Spends s₀ env s s'' b b'' := by
  obtain ⟨m, hg, hm, hr⟩ := h
  obtain ⟨n, hg', hn, hr'⟩ := h'
  refine ⟨m + n, hg.trans hg', by omega, fun words href hle => ?_⟩
  refine hr' words (hr words href hle) ?_
  rw [hg.count]
  omega

theorem Spends.mono {c c' : ℕ} (h : Spends s₀ env s s' b b') (hc : b ≤ c) (hc' : c' ≤ b') :
    Spends s₀ env s s' c c' := by
  obtain ⟨n, hg, hn, hr⟩ := h
  exact ⟨n, hg, by omega, fun words href hle => hr words href (by omega)⟩

/-- What is not spent may be added on both sides. -/
theorem Spends.frame (h : Spends s₀ env s s' b b') (c : ℕ) :
    Spends s₀ env s s' (b + c) (b' + c) := by
  obtain ⟨n, hg, hn, hr⟩ := h
  exact ⟨n, hg, by omega, fun words href hle => hr words href (by omega)⟩

theorem spends_quiet (hg : Grows env s s' 0) (hsame : s'.refused = s.refused) (b : ℕ) :
    Spends s₀ env s s' b b :=
  ⟨0, hg, by omega, fun _ href _ => href.grows hg hsame⟩

theorem spends_read (h : Proc (loaderCard F s₀ env)) {a : Word} (ha : a ≠ regFifoCsr) (b : ℕ) :
    Spends s₀ env h.st (h.read a).2.st b b :=
  spends_quiet (grows_read h a) (if_neg fun hc => ha hc.1) b

theorem spends_write (h : Proc (loaderCard F s₀ env)) (v : Word) {a : Word} (ha : a ≠ regFifoR1)
    (b : ℕ) : Spends s₀ env h.st (h.write v a).st b b :=
  ⟨0, grows_write h v ha, by omega, fun _ href _ => href.write v a⟩

theorem spends_push (h : Proc (loaderCard F s₀ env)) (v : Word) :
    Spends s₀ env h.st (h.write v regFifoR1).st 1 0 :=
  ⟨1, grows_push h v, Nat.le_refl _, fun _ href _ => href.write v regFifoR1⟩

theorem spends_mdelay (h : Proc (loaderCard F s₀ env)) (ms b : ℕ) :
    Spends s₀ env h.st (h.mdelay ms).st b b :=
  spends_quiet (grows_mdelay h ms) rfl b

theorem spends_usleepRange (h : Proc (loaderCard F s₀ env)) (lo hi b : ℕ) :
    Spends s₀ env h.st (h.usleepRange lo hi).st b b :=
  spends_quiet (grows_usleepRange h lo hi) rfl b

end Spends

/-! ## The driver -/

theorem spends_pollFifoCsr (h : Proc (loaderCard F s₀ env)) (tries : ℕ) {b : ℕ} (hb : 1 ≤ b) :
    Spends s₀ env h.st (SvecCore.pollFifoCsr h tries).2.st b b := by
  have hpoll : ∀ h : Proc (loaderCard F s₀ env),
      Spends s₀ env h.st (h.read regFifoCsr).2.st b b := fun h =>
    ⟨0, grows_read h regFifoCsr, by omega, fun _ href hle => href.read (by omega)⟩
  induction tries generalizing h with
  | zero => exact hpoll h
  | succ tries ih =>
    unfold SvecCore.pollFifoCsr
    split
    · exact (hpoll h).trans (ih _)
    · exact hpoll h

/-- One for the word that is held back. -/
def held (dev : SvecDev) : ℕ := if Holding dev then 1 else 0

/-- One word: it goes out, or nothing does. -/
theorem spends_writeWord (h : Proc (loaderCard F s₀ env)) (dev : SvecDev) (isLast : Bool) :
    let r := svecFpgaWriteWord h dev.bitstreamLastWord (dev.bitstreamLastWordSize.toNat : Int) isLast
    Spends s₀ env h.st r.2.st (held dev) (if r.1 = 0 then 0 else held dev) := by
  intro r
  by_cases hold : Holding dev
  swap
  · have hsize : (dev.bitstreamLastWordSize.toNat : Int) ≤ 0 ∨
        5 ≤ (dev.bitstreamLastWordSize.toNat : Int) := by
      unfold Holding at hold
      omega
    have hr : r = (-SvecCore.einval, h) := if_pos hsize
    have hne : ¬ (-SvecCore.einval : Int) = 0 := by decide
    rw [hr, if_neg hne]
    exact spends_quiet (Grows.refl env h.st) rfl _
  · have hsize : ¬ ((dev.bitstreamLastWordSize.toNat : Int) ≤ 0 ∨
        5 ≤ (dev.bitstreamLastWordSize.toNat : Int)) := by
      unfold Holding at hold
      omega
    have hone : held dev = 1 := if_pos hold
    have hpoll := spends_pollFifoCsr h 10000 (b := held dev) (by omega)
    simp only [r, svecFpgaWriteWord, if_neg hsize]
    cases hfull : (SvecCore.pollFifoCsr h 10000).1.getLsbD fifoCsrFullBit with
    | true =>
      have hne : ¬ (-SvecCore.ebusy : Int) = 0 := by decide
      simp only [if_true, if_neg hne]
      exact hpoll
    | false =>
      simp only [Bool.false_eq_true, if_false, if_true]
      have hwrite := spends_write (SvecCore.pollFifoCsr h 10000).2
        ((BitVec.ofInt 32 ((dev.bitstreamLastWordSize.toNat : Int) - 1) &&& 0x3#32) |||
          (if isLast then fifoR0Xlast else 0#32)) (a := regFifoR0) (by decide) (held dev)
      rw [hone] at hpoll hwrite ⊢
      exact hpoll.trans (hwrite.trans (spends_push _ _))

theorem held_le_one (dev : SvecDev) : held dev ≤ 1 := by
  unfold held
  split <;> decide

/-- The loop over a buffer. -/
theorem spends_writeBufLoop (buf : Buffer) (dev : SvecDev) (h : Proc (loaderCard F s₀ env)) (i : ℕ)
    (hi : Aligned buf.bytes.length i) :
    Spends s₀ env h.st (writeBufLoop buf dev h i).2.2.st
      (held dev + wordsFrom (taken buf).length i) (held (writeBufLoop buf dev h i).2.1) := by
  have htaken : (taken buf).length = min (2 ^ 31) buf.bytes.length := List.length_take
  induction dev, h, i using Svec.Host.SvecCore.writeBufLoop.induct buf with
  | case1 dev h i hlt word hstop =>
    have hword : Spends s₀ env h.st word.2.st (held dev) (if word.1 = 0 then 0 else held dev) :=
      spends_writeWord h dev false
    rw [if_neg hstop.1] at hword
    rw [writeBufLoop, if_pos hlt]
    simp only
    rw [if_pos hstop]
    exact hword.mono (Nat.le_add_right _ _) (Nat.le_refl _)
  | case2 dev h i hlt word hgo n ih =>
    have hword := (spends_writeWord h dev false).frame (wordsFrom (taken buf).length i)
    have hdvd : 4 ∣ i := hi.resolve_right (by omega)
    have hn : n = if buf.bytes.length - i > 4 then 4 else buf.bytes.length - i := rfl
    have hnext : Aligned buf.bytes.length (i + n) := by
      obtain ⟨-, -, -, hnext⟩ := chunk_range hlt.2 hn
      exact hnext hdvd
    have hone := held_le_one ⟨buf.load (4 * (i >>> 2)), BitVec.ofNat 32 n⟩
    have hwords : 1 + wordsFrom (taken buf).length (i + n) ≤ wordsFrom (taken buf).length i := by
      unfold wordsFrom
      rw [htaken, hn]
      split <;> omega
    rw [writeBufLoop, if_pos hlt]
    simp only
    rw [if_neg hgo]
    exact hword.trans ((ih hnext).mono (by omega) (Nat.le_refl _))
  | case3 dev h i hend =>
    rw [writeBufLoop, if_neg hend]
    exact (spends_quiet (Grows.refl env h.st) rfl _).mono (Nat.le_refl _) (Nat.le_add_right _ _)

/-- The entries for what the driver takes in of a bitstream. -/
def driverWords (bufs : List Buffer) : ℕ := (bufs.map fun b => wordsFrom (taken b).length 0).sum

theorem spends_writeAll (bufs : List Buffer) (dev : SvecDev) (h : Proc (loaderCard F s₀ env)) :
    Spends s₀ env h.st (writeAll dev h bufs).2.2.st (held dev + driverWords bufs)
      (held (writeAll dev h bufs).2.1) := by
  induction bufs generalizing dev h with
  | nil => exact spends_quiet (Grows.refl env h.st) rfl _
  | cons buf bufs ih =>
    have hbuf := (spends_writeBufLoop buf dev h 0 (.inl (Nat.dvd_zero 4))).frame (driverWords bufs)
    have hsum : driverWords (buf :: bufs) = wordsFrom (taken buf).length 0 + driverWords bufs := rfl
    rw [hsum, ← Nat.add_assoc]
    exact hbuf.trans (ih _ _)

/-- `svec_fpga_write_init` pushes nothing. -/
theorem spends_writeInit (h : Proc (loaderCard F s₀ env)) (b : ℕ) :
    Spends s₀ env h.st (SvecCore.svecFpgaWriteInit h).2.2.st b b := by
  have hreset : ∀ (seq : List Word) (h : Proc (loaderCard F s₀ env)), Spends s₀ env h.st
      (seq.foldl (fun h b => (h.write b regBtrigr).mdelay 1) h).st b b := by
    intro seq
    induction seq with
    | nil => exact fun h => spends_quiet (Grows.refl env h.st) rfl b
    | cons v seq ih =>
      intro h
      exact (spends_write h v (by decide) b).trans ((spends_mdelay _ 1 b).trans (ih _))
  show Spends s₀ env h.st (SvecCore.svecFpgaWriteStart h).2.st b b
  unfold SvecCore.svecFpgaWriteStart
  have hr : (SvecCore.svecFpgaReset h).1 = 0 := rfl
  have hactive : Spends s₀ env h.st
      (SvecCore.svecFpgaLoaderIsActive (SvecCore.svecFpgaReset h).2).2.st b b :=
    (hreset SvecCore.bootUnlockSequence h).trans
      ((spends_read _ (by decide) b).trans (spends_read _ (by decide) b))
  simp only [hr, ne_eq, not_true_eq_false, if_false]
  split
  · exact hactive
  · exact hactive.trans ((spends_write _ csrSwrst (by decide) b).trans
      (spends_write _ (csrStart ||| csrMsbf) (by decide) b))

/-- The wait for DONE reads CSR. -/
theorem spends_waitDone (h : Proc (loaderCard F s₀ env)) (timeout : BitVec 64) (rval : Word)
    (rounds b : ℕ) : Spends s₀ env h.st (SvecCore.waitDone h timeout rval rounds).2.st b b := by
  induction rounds generalizing h rval with
  | zero => exact spends_quiet (Grows.refl env h.st) rfl b
  | succ rounds ih =>
    unfold SvecCore.waitDone
    simp only
    split
    · have hread : Spends s₀ env h.st (h.getJiffies64.2.read regCsr).2.st b b :=
        spends_read h.getJiffies64.2 (by decide) b
      split
      · exact hread
      · exact hread.trans ((spends_usleepRange _ 900 1100 b).trans (ih _ _))
    · exact spends_quiet (Grows.refl env h.st) rfl b

/-- `svec_fpga_write_complete` pushes the word that is held back. -/
theorem spends_writeComplete (rounds : ℕ) (info : FpgaImageInfo) (dev : SvecDev)
    (h : Proc (loaderCard F s₀ env)) :
    Spends s₀ env h.st (SvecCore.svecFpgaWriteComplete rounds info dev h).2.2.st (held dev) 0 := by
  have hword := (spends_writeWord h dev true).mono (Nat.le_refl _) (Nat.zero_le _)
  have hexit : ∀ h' : Proc (loaderCard F s₀ env),
      Spends s₀ env h'.st ((h'.write csrExit regCsr).usleepRange 10000 20000).st 0 0 :=
    fun h' => (spends_write h' csrExit (by decide) 0).trans (spends_usleepRange _ 10000 20000 0)
  show Spends s₀ env h.st (SvecCore.svecFpgaWriteStop rounds info dev h).2.2.st (held dev) 0
  unfold SvecCore.svecFpgaWriteStop
  simp only
  split
  · exact hword.trans (hexit _)
  · have hwait := fun timeout => hword.trans (spends_waitDone
      (svecFpgaWriteWord h dev.bitstreamLastWord (dev.bitstreamLastWordSize.toNat : Int) true).2.getJiffies64.2
      timeout 0#32 rounds 0)
    split
    · exact hwait _
    · exact (hwait _).trans (hexit _)

theorem spends_session (h : Proc (loaderCard F s₀ env)) (bufs : List Buffer) (rounds : ℕ)
    (info : FpgaImageInfo) :
    Spends s₀ env h.st (session h bufs rounds info).after.st (driverWords bufs) 0 := by
  have hall := spends_writeAll bufs .cleared (SvecCore.svecFpgaWriteInit h).2.2
  have hnone : held .cleared = 0 := if_neg Stream.not_holding_cleared
  rw [hnone, Nat.zero_add] at hall
  exact (spends_writeInit h _).trans (hall.trans (spends_writeComplete rounds info _ _))

/-! ## The flasher from its start -/

theorem spends_statusLoop (rounds : ℕ) (h : Proc (loaderCard F s₀ env)) (b : ℕ) :
    Spends s₀ env h.st (statusLoop rounds h).2.st b b := by
  induction rounds generalizing h with
  | zero => exact spends_quiet (Grows.refl env h.st) rfl b
  | succ rounds ih =>
    have hread : Spends s₀ env h.st (h.read regCsr).2.st b b := spends_read h (by decide) b
    unfold statusLoop
    simp only [csrReadl_eq_read, csrWritel_eq_write]
    split
    · exact hread.trans (spends_write _ csrExit (by decide) b)
    · exact hread.trans (ih _)

theorem grows_statusLoop (rounds : ℕ) (h : Proc (loaderCard F s₀ env)) :
    Grows env h.st (statusLoop rounds h).2.st 0 := by
  obtain ⟨n, hg, hn, -⟩ := spends_statusLoop rounds h 0
  obtain rfl : n = 0 := by omega
  exact hg

/-- The program when it has written SWRST and START. -/
def started (F : FifoSync Stamped 256) (s₀ : HostPath F) (env : Surroundings) :
    Proc (loaderCard F s₀ env) := startAfpga (begin F s₀ env)

/-- The cycle of SWRST. -/
def swrstAt (env : Surroundings) : ℕ := env.wait 0

theorem started_eq : started F s₀ env =
    ((begin F s₀ env).write csrSwrst regCsr).write (csrStart ||| csrMsbf) regCsr := by
  rw [started, startAfpga, csrWritel_eq_write, csrWritel_eq_write]

theorem grows_started : Grows env (begin F s₀ env).st (started F s₀ env).st 0 := by
  rw [started_eq]
  exact (grows_write (begin F s₀ env) csrSwrst (by decide)).trans
    (grows_write _ (csrStart ||| csrMsbf) (by decide))

theorem pushed_started : pushed ((started F s₀ env).st.wave env) (started F s₀ env).st.now = 0 := by
  rw [grows_started.count]
  rfl

theorem refusals_started (words : ℕ) : Refusals s₀ env words (started F s₀ env).st := by
  have hbegin : Refusals s₀ env words (begin F s₀ env).st := fun _ hp => absurd hp List.not_mem_nil
  rw [started_eq]
  exact (hbegin.write _ _).write _ _

/-- SWRST is written once, in cycle `e`, and the loader is in `IDLE` from then until START. -/
structure Begins (s₀ : HostPath F) (env : Surroundings) (e : ℕ) (s : CardState) : Prop where
  lt : e < s.now
  swrst : (s.wave env e).csrSwrst = true
  once : ∀ t, t < s.now → t ≠ e → (s.wave env t).csrSwrst = false
  idle : ∀ t, e < t → t < s.now → (s.path F s₀ env t).ldr.state = .idle

theorem begins_of_accesses {b : CardState} {i j : HostIn} {r q : CardRegs}
    (hb : ∀ t, (b.wave env t).csrSwrst = false) (hi : i.csrSwrst = true) (hj : j.csrSwrst = false) :
    Begins s₀ env (b.due env) ((b.access env i r).access env j q) := by
  generalize hs : b.access env i r = s
  have hnow : s.now = b.due env + 1 := by rw [← hs]; rfl
  have hsw : (s.wave env (b.due env)).csrSwrst = true := by
    rw [← hs, wave_access_due, hi]
  have hle := now_le_due env s
  have hbefore : ∀ t, t < s.due env → (s.access env j q).wave env t = s.wave env t :=
    fun t ht => wave_access_of_lt ht
  have hbetween : ∀ t, b.due env < t → t < s.due env →
      (s.access env j q).wave env t = quiet env s.regs t := fun t ht ht' => by
    rw [hbefore t ht', wave_of_now_le (by omega)]
  refine ⟨Nat.lt_succ_of_lt (by omega), by rw [hbefore _ (by omega), hsw], ?_, ?_⟩
  · intro t ht hne
    rcases Nat.lt_succ_iff_lt_or_eq.mp ht with hlt | rfl
    · rcases Nat.lt_or_gt_of_ne hne with hlow | hhigh
      · rw [hbefore t hlt, ← hs, wave_access_of_lt hlow, hb t]
      · rw [hbetween t hhigh hlt]
        rfl
    · rw [wave_access_due, hj]
  · intro t ht
    induction ht with
    | refl =>
      intro _
      have hinput : ((s.access env j q).wave env (b.due env)).csrSwrst = true := by
        rw [hbefore _ (by omega), hsw]
      exact XilinxLoader.idle_of_swrst hinput
    | @step t ht ih =>
      intro hlt
      have hinput := hbetween t ht (Nat.lt_of_succ_lt_succ hlt)
      refine XilinxLoader.idle_step (r := ((s.access env j q).path F s₀ env t).ldr)
        (i := ((s.access env j q).path F s₀ env t).loaderIn ((s.access env j q).wave env t)) ?_ ?_
        (ih (Nat.lt_of_succ_lt hlt))
      · rw [hinput]
        exact ⟨rfl, rfl⟩
      · rw [hinput]
        rfl

/-- No load is given up between SWRST and START. -/
theorem Begins.now_le {e n u : ℕ} {s s' : CardState} (begins : Begins s₀ env e s)
    (hg : Grows env s s' n) (hreset : AfterReset (s'.wave env) u)
    (hgives : GivesUp (s'.path F s₀ env u) (s'.wave env u)) : s.now ≤ u := by
  by_contra hbefore
  have hbefore := Nat.not_le.mp hbefore
  obtain ⟨e', heu, hsw⟩ := hreset
  have he : e' = e := by
    by_contra hne
    rw [hg.same e' (Nat.lt_trans heu hbefore), begins.once e' (Nat.lt_trans heu hbefore) hne] at hsw
    exact absurd hsw (by decide)
  have hidle := begins.idle u (he ▸ heu) hbefore
  rw [← hg.path_eq (Nat.le_of_lt hbefore), hgives.2.1] at hidle
  exact absurd hidle (by decide)

theorem started_begins : Begins s₀ env (swrstAt env) (started F s₀ env).st := by
  have hdue : (begin F s₀ env).st.due env = swrstAt env := Nat.zero_add _
  rw [started_eq, write_csr, write_csr, ← hdue]
  exact begins_of_accesses (fun _ => rfl) (show csrSwrst.getLsbD 5 = true by decide)
    (show (csrStart ||| csrMsbf).getLsbD 5 = false by decide)

/-- The entries of a bitstream that the flasher loads. -/
def flasherWords (buf : Buffer) : ℕ := wordsFrom buf.bytes.length 0

/-- The FIFO loop from its start. -/
theorem fifoLoop_started (buf : Buffer) (polls : ℕ) :
    ∃ i n, Aligned buf.bytes.length i ∧
      (∀ more, fifoLoop buf (polls + more) (started F s₀ env) 0 =
        fifoLoop buf more (fifoLoop buf polls (started F s₀ env) 0).2 i) ∧
      Supplies s₀ env (started F s₀ env).st (fifoLoop buf polls (started F s₀ env) 0).2.st n ∧
      flasherWords buf = wordsFrom buf.bytes.length i + n ∧
      ((fifoLoop buf polls (started F s₀ env) 0).1 = true ↔ buf.bytes.length ≤ i) ∧
      Refusals s₀ env (flasherWords buf) (fifoLoop buf polls (started F s₀ env) 0).2.st :=
  fifoLoop_supplies buf (flasherWords buf) polls (started F s₀ env) 0 (.inl (Nat.dvd_zero 4))
    (refusals_started _) (by rw [pushed_started, Nat.zero_add]; rfl)

/-- Where the loop has not ended, neither has the program. -/
theorem programAfpga_of_unfinished {buf : Buffer} {polls rounds : ℕ}
    (hgo : (fifoLoop buf polls (started F s₀ env) 0).1 = false) :
    (programAfpga polls rounds (begin F s₀ env) buf).2 = (fifoLoop buf polls (started F s₀ env) 0).2 := by
  unfold programAfpga
  have hgo : (fifoLoop buf polls (startAfpga (begin F s₀ env)) 0).1 = false := hgo
  simp only [hgo, Bool.false_eq_true, if_false]
  rfl

theorem programAfpga_of_finished {buf : Buffer} {polls rounds : ℕ}
    (hend : (fifoLoop buf polls (started F s₀ env) 0).1 = true) :
    (programAfpga polls rounds (begin F s₀ env) buf).2 =
      (statusLoop rounds (fifoLoop buf polls (started F s₀ env) 0).2).2 := by
  unfold programAfpga
  have hend : (fifoLoop buf polls (startAfpga (begin F s₀ env)) 0).1 = true := hend
  simp only [hend, if_true]
  rfl

/-- A loop that has ended has pushed everything. -/
theorem pushed_of_finished {buf : Buffer} {polls : ℕ} {s : CardState}
    (hs : (fifoLoop buf polls (started F s₀ env) 0).2.st = s)
    (hend : (fifoLoop buf polls (started F s₀ env) 0).1 = true) :
    pushed (s.wave env) s.now = flasherWords buf := by
  obtain ⟨i, n, -, -, hsup, hwords, hdone, -⟩ := @fifoLoop_started F s₀ env buf polls
  rw [hs] at hsup
  have hnone : wordsFrom buf.bytes.length i = 0 := by
    have := hdone.mp hend
    unfold wordsFrom
    omega
  rw [hsup.count, pushed_started, hwords, hnone]

theorem programAfpga_refusals (buf : Buffer) (polls rounds : ℕ) :
    Refusals s₀ env (flasherWords buf) (programAfpga polls rounds (begin F s₀ env) buf).2.st := by
  obtain ⟨i, n, -, -, -, -, -, href⟩ := @fifoLoop_started F s₀ env buf polls
  cases hend : (fifoLoop buf polls (started F s₀ env) 0).1 with
  | false =>
    rw [programAfpga_of_unfinished hend]
    exact href
  | true =>
    rw [programAfpga_of_finished hend]
    obtain ⟨_, -, -, hkeep⟩ := spends_statusLoop rounds (fifoLoop buf polls (started F s₀ env) 0).2 0
    exact hkeep _ href (Nat.le_of_eq (pushed_of_finished rfl hend))

/-! ## The flasher waits in vain -/

/-- The loader stands in `GOT_DONE`. -/
def Stands (s₀ : HostPath F) (env : Surroundings) (s : CardState) : Prop :=
  (s.path F s₀ env s.now).ldr.state = .gotDone

/-- While the program only feeds the FIFO, a loader in `GOT_DONE` stays there. -/
theorem gotDone_stays {s s' : CardState} {n k₀ : ℕ} (hsup : Supplies s₀ env s s' n)
    (hk₀ : s.now ≤ k₀) (hs : (s'.path F s₀ env k₀).ldr.state = .gotDone) {k : ℕ} (hk : k₀ ≤ k)
    (hle : k ≤ s'.now) : (s'.path F s₀ env k).ldr.state = .gotDone := by
  induction hk with
  | refl => exact hs
  | @step k hk ih =>
    obtain ⟨hrst, hsw, hexit, -⟩ := hsup.gentle k (Nat.le_trans hk₀ hk) hle
    exact gotDone_step (ih (Nat.le_of_lt hle)) hrst hsw hexit

/-- While the program only feeds the FIFO, the loader that stands goes on standing, and the
FIFO gets fuller by what is pushed. -/
theorem stands_supplies {s s' : CardState} {n : ℕ} (hs : Stands s₀ env s)
    (hsup : Supplies s₀ env s s' n) : Stands s₀ env s' ∧
      fill (s'.path F s₀ env s'.now) = fill (s.path F s₀ env s.now) + n := by
  have hsame : s'.path F s₀ env s.now = s.path F s₀ env s.now := hsup.path_eq (Nat.le_refl _)
  have hstay : ∀ k, s.now ≤ k → k ≤ s'.now → (s'.path F s₀ env k).ldr.state = .gotDone :=
    fun k => gotDone_stays hsup (Nat.le_refl _) (hsame ▸ hs)
  refine ⟨hstay _ hsup.le (Nat.le_refl _), ?_⟩
  have hgrow := @fill_add_pushed_eq _ s₀ (s'.wave env) _ _ hsup.le fun k hk hlt => by
    obtain ⟨hrst, -, -, hclear⟩ := hsup.gentle k hk hlt
    have hgot : (trace s₀ (s'.wave env) k).ldr.state = .gotDone := hstay k hk (Nat.le_of_lt hlt)
    exact ⟨hrst, hclear, rd_false (by simp [hgot]) (by simp [hgot]), hsup.room k hk hlt⟩
  have hcount := hsup.count
  rw [hsup.pushed_eq (Nat.le_refl _)] at hgrow
  have hfill : fill (trace s₀ (s'.wave env) s.now) = fill (s.path F s₀ env s.now) :=
    congrArg fill hsame
  show fill (trace s₀ (s'.wave env) s'.now) = _
  omega

/-- With more words left than fit, the FIFO loop fills the FIFO and then waits. -/
theorem fifoLoop_fills (buf : Buffer) (h : Proc (loaderCard F s₀ env)) (i : ℕ)
    (hi : Aligned buf.bytes.length i) (hs : Stands s₀ env h.st)
    (hcap : fill (CardState.path F s₀ env h.st (CardState.now h.st)) ≤ 256)
    (hmore : 256 < fill (CardState.path F s₀ env h.st (CardState.now h.st)) +
      wordsFrom buf.bytes.length i) :
    ∃ polls i' n, (fifoLoop buf polls h i).1 = false ∧
      Supplies s₀ env h.st (fifoLoop buf polls h i).2.st n ∧
      wordsFrom buf.bytes.length i = wordsFrom buf.bytes.length i' + n ∧
      0 < wordsFrom buf.bytes.length i' ∧ Stands s₀ env (fifoLoop buf polls h i).2.st ∧
      fill (CardState.path F s₀ env (fifoLoop buf polls h i).2.st
        (CardState.now (fifoLoop buf polls h i).2.st)) = 256 := by
  induction hroom : 256 - fill (CardState.path F s₀ env h.st (CardState.now h.st))
    generalizing h i with
  | zero =>
    have hlt : ¬ buf.bytes.length ≤ i := by
      unfold wordsFrom at hmore
      omega
    exact ⟨0, i, 0, decide_eq_false hlt, Supplies.refl s₀ env h.st, rfl, by omega, hs,
      by show fill (CardState.path F s₀ env h.st (CardState.now h.st)) = 256; omega⟩
  | succ room ih =>
    have hlt : i < buf.bytes.length := by
      unfold wordsFrom at hmore
      omega
    rcases fifoLoop_round h buf hi hlt with ⟨hfull, -⟩ | ⟨h', i₁, -, hgo, hsup, hi₁, hword, -⟩
    · -- Nothing was pushed since the loader stopped, so the poll sees what there was.
      exfalso
      have hfull : 256 ≤ fill (CardState.path F s₀ env h.st (CardState.due env h.st)) :=
        wrFull_iff.mp hfull
      have hle := @fill_add_pushed_le _ s₀ (CardState.wave env h.st) _ _
        (now_le_due env h.st)
      rw [pushed_quiet (now_le_due env h.st)] at hle
      unfold CardState.path at hfull hroom
      omega
    · obtain ⟨hs', hfill⟩ := stands_supplies hs hsup
      obtain ⟨polls, i', n, hgo', hsup', hwords, hpos, hs'', hfull⟩ := ih h' i₁ hi₁ hs'
        (by omega) (by omega) (by omega)
      refine ⟨polls + 1, i', 1 + n, ?_⟩
      rw [hgo]
      exact ⟨hgo', hsup.trans hsup', by omega, hpos, hs'', hfull⟩

/-- A loader that gives up while the FIFO loop runs stands still when the loop has made its
polls, and what it had not taken is still to be taken. -/
theorem stands_of_givesUp {s s' : CardState} {n u : ℕ} (hsup : Supplies s₀ env s s' n) (hu : s.now ≤ u)
    (hlt : u < s'.now) (hgives : GivesUp (s'.path F s₀ env u) (s'.wave env u)) :
    Stands s₀ env s' ∧ fill (s'.path F s₀ env s'.now) + pushed (s'.wave env) u =
      fill (s'.path F s₀ env u) + pushed (s'.wave env) s'.now := by
  have hstay : ∀ k, u < k → k ≤ s'.now → (s'.path F s₀ env k).ldr.state = .gotDone :=
    fun k => gotDone_stays hsup (Nat.le_succ_of_le hu) (gotDone_of_givesUp hgives)
  refine ⟨hstay _ hlt (Nat.le_refl _), fill_add_pushed_eq (Nat.le_of_lt hlt) fun k hk hkn => ?_⟩
  have hlow := Nat.le_trans hu hk
  obtain ⟨hrst, -, -, hclear⟩ := hsup.gentle k hlow hkn
  refine ⟨hrst, hclear, ?_, hsup.room k hlow hkn⟩
  rcases Nat.eq_or_lt_of_le hk with rfl | hk
  · have hout : (trace s₀ (s'.wave env) u).ldr.state = .outputBit := hgives.2.1
    exact rd_false (by simp [hout]) (by simp [hout])
  · have hgot : (trace s₀ (s'.wave env) k).ldr.state = .gotDone := hstay k hk (Nat.le_of_lt hkn)
    exact rd_false (by simp [hgot]) (by simp [hgot])

/-- A program that loads a bitstream, and how long it is watched. -/
inductive Loading where
  | flasher (buf : Buffer) (polls rounds : ℕ)
  | driver (bufs : List Buffer) (rounds : ℕ) (info : FpgaImageInfo)

/-- The entries that it has to push. -/
def Loading.words : Loading → ℕ
  | .flasher buf _ _ => flasherWords buf
  | .driver bufs _ _ => driverWords bufs

/-- The card after it. -/
def Loading.final (F : FifoSync Stamped 256) (s₀ : HostPath F) (env : Surroundings) :
    Loading → CardState
  | .flasher buf polls rounds => (programAfpga polls rounds (begin F s₀ env) buf).2.st
  | .driver bufs rounds info => (session (begin F s₀ env) bufs rounds info).after.st

/-- Once the loader was reset, no cycle of the run is a deadlock, and whenever the host finds
the FIFO full it does not wait in vain. -/
structure Loading.Free (F : FifoSync Stamped 256) (s₀ : HostPath F) (env : Surroundings)
    (l : Loading) : Prop where
  noDeadlock : ∀ t, t ≤ (l.final F s₀ env).now → AfterReset ((l.final F s₀ env).wave env) t →
    ¬ Deadlock s₀ ((l.final F s₀ env).wave env) l.words t
  notInVain : ∀ p ∈ (l.final F s₀ env).refused, AfterReset ((l.final F s₀ env).wave env) p →
    ¬ ReadsNoMore s₀ ((l.final F s₀ env).wave env) p

/-- Whenever the loader gives up the load, what it has not taken fits into the FIFO. -/
def Loading.InTime (F : FifoSync Stamped 256) (s₀ : HostPath F) (env : Surroundings)
    (l : Loading) : Prop :=
  GivesUpInTime s₀ ((l.final F s₀ env).wave env) l.words (l.final F s₀ env).now

theorem Loading.refusals (l : Loading) : Refusals s₀ env l.words (l.final F s₀ env) := by
  cases l with
  | flasher buf polls rounds => exact programAfpga_refusals buf polls rounds
  | driver bufs rounds info =>
    obtain ⟨_, -, -, hkeep⟩ := spends_session (begin F s₀ env) bufs rounds info
    exact hkeep _ (fun _ hp => absurd hp List.not_mem_nil) (Nat.le_of_eq (Nat.zero_add _))

theorem Loading.free_of_inTime {l : Loading} (h : l.InTime F s₀ env) : l.Free F s₀ env := by
  have hno : ∀ t, t ≤ (l.final F s₀ env).now → AfterReset ((l.final F s₀ env).wave env) t →
      ¬ Deadlock s₀ ((l.final F s₀ env).wave env) l.words t :=
    fun t ht hreset => no_deadlock_of_inTime h ht hreset
  refine ⟨hno, fun p hp hreset hstuck => ?_⟩
  obtain ⟨hlt, hmore, hfull⟩ := l.refusals p hp
  exact hno p (Nat.le_of_lt hlt) hreset ⟨hmore, hfull, hstuck⟩

/-- A load that is given up too early while the FIFO loop runs: with more polls the loop
deadlocks. -/
theorem deadlock_of_late {buf : Buffer} {polls u : ℕ} (rounds : ℕ) {s : CardState}
    (hs : (fifoLoop buf polls (started F s₀ env) 0).2.st = s) (hcap : fill s₀ ≤ 256)
    (hlt : u < s.now) (hreset : AfterReset (s.wave env) u)
    (hgives : GivesUp (s.path F s₀ env u) (s.wave env u))
    (hlate : 256 < fill (s.path F s₀ env u) + (flasherWords buf - pushed (s.wave env) u)) :
    ∃ more, ¬ Loading.Free F s₀ env (.flasher buf (polls + more) rounds) := by
  obtain ⟨i, n, hi, hcomp, hsup, hwords, -, -⟩ :=
    @fifoLoop_started F s₀ env buf polls
  have begins := @started_begins F s₀ env
  rw [hs] at hsup
  have hstarted : CardState.now (started F s₀ env).st ≤ u := begins.now_le hsup.toGrows hreset hgives
  obtain ⟨hstands, hkeep⟩ := stands_of_givesUp hsup hstarted hlt hgives
  have hcount : pushed (s.wave env) s.now = n := by
    rw [hsup.count, pushed_started, Nat.zero_add]
  have hmono := pushed_mono (s.wave env) (Nat.le_of_lt hlt)
  obtain ⟨more, i', n', hgo, hsup', hwords', hpos, hstands', hfull⟩ :=
    fifoLoop_fills buf (fifoLoop buf polls (started F s₀ env) 0).2 i hi (hs ▸ hstands)
      (fill_le_cap hcap _) (by rw [hs]; omega)
  rw [← hcomp] at hgo hsup' hstands' hfull
  have hall := hsup.trans (hs ▸ hsup')
  generalize hs' : (fifoLoop buf (polls + more) (started F s₀ env) 0).2.st = s' at *
  have hfinal : Loading.final F s₀ env (.flasher buf (polls + more) rounds) = s' := by
    rw [← hs']
    exact congrArg Proc.st (programAfpga_of_unfinished hgo)
  refine ⟨more, fun hfree => ?_⟩
  have hno := hfree.noDeadlock
  rw [hfinal] at hno
  refine hno s'.now (Nat.le_refl _) ⟨swrstAt env, Nat.lt_of_lt_of_le begins.lt hall.le, ?_⟩
    ⟨?_, wrFull_iff.mpr (Nat.le_of_eq hfull.symm), readsNoMore_of_gotDone hstands'⟩
  · rw [hall.same _ begins.lt]
    exact begins.swrst
  · rw [hall.count, pushed_started]
    show 0 + (n + n') < flasherWords buf
    omega

/-- The flasher deadlocks with the loader unless what the loader has not taken, when it gives a load
up, fits into the FIFO. -/
theorem flasher_free_iff (hcap : fill s₀ ≤ 256) (buf : Buffer) :
    (∀ polls rounds, (Loading.flasher buf polls rounds).Free F s₀ env) ↔
      ∀ polls rounds, (Loading.flasher buf polls rounds).InTime F s₀ env := by
  refine ⟨fun hfree polls rounds u hlt hreset hgives => ?_, fun h polls rounds =>
    Loading.free_of_inTime (h polls rounds)⟩
  by_contra hlate
  have hlate := Nat.not_le.mp hlate
  suffices ∃ more, ¬ Loading.Free F s₀ env (.flasher buf (polls + more) rounds) by
    obtain ⟨more, hno⟩ := this
    exact hno (hfree _ _)
  cases hend : (fifoLoop buf polls (started F s₀ env) 0).1 with
  | false =>
    have hfinal : Loading.final F s₀ env (.flasher buf polls rounds) =
        (fifoLoop buf polls (started F s₀ env) 0).2.st :=
      congrArg Proc.st (programAfpga_of_unfinished hend)
    exact deadlock_of_late rounds hfinal.symm hcap hlt hreset hgives hlate
  | true =>
    -- Everything is pushed, so it gave up before the loop ended.
    have hgrows : Grows env (fifoLoop buf polls (started F s₀ env) 0).2.st
        (Loading.final F s₀ env (.flasher buf polls rounds)) 0 := by
      have hfinal : Loading.final F s₀ env (.flasher buf polls rounds) =
          (statusLoop rounds (fifoLoop buf polls (started F s₀ env) 0).2).2.st :=
        congrArg Proc.st (programAfpga_of_finished hend)
      rw [hfinal]
      exact grows_statusLoop rounds _
    generalize hs : (fifoLoop buf polls (started F s₀ env) 0).2.st = s at hgrows
    generalize Loading.final F s₀ env (.flasher buf polls rounds) = s' at *
    have hcount := pushed_of_finished hs hend
    have hwithin : u < s.now := by
      by_contra hafter
      have hmono := hgrows.le_pushed (Nat.not_lt.mp hafter)
      rw [hcount] at hmono
      have hfill : fill (trace s₀ (s'.wave env) u) ≤ 256 := fill_le_cap hcap u
      show False
      have hlate : 256 < fill (trace s₀ (s'.wave env) u) +
          (flasherWords buf - pushed (s'.wave env) u) := hlate
      omega
    obtain ⟨e, heu, hsw⟩ := hreset
    refine deadlock_of_late rounds hs hcap hwithin ⟨e, heu, ?_⟩ ?_ ?_
    · rw [← hgrows.same e (Nat.lt_trans heu hwithin)]
      exact hsw
    · rw [← hgrows.same u hwithin, ← hgrows.path_eq (Nat.le_of_lt hwithin)]
      exact hgives
    · rw [← hgrows.path_eq (Nat.le_of_lt hwithin), ← hgrows.pushed_eq (Nat.le_of_lt hwithin)]
      exact hlate

/-- After reset. -/
def idlePath : HostPath (listFifo Stamped 256 default) := ⟨default, ([], default)⟩

/-- INIT_B answers at once, DONE is high when the first bit is due, and the host gets to its
second word late. -/
def earlyDone : Surroundings where
  regs := ⟨false, 0#6, 0#32⟩
  wait n := if n = 5 then 2000 else 0
  initBSynced t := decide (t ≠ 1003)
  doneSynced t := decide (1007 ≤ t)
  jiffies _ := 0#64
  usecsToJiffies us := us.setWidth 64

/-- 258 words. -/
def longBitstream : Buffer := ⟨List.replicate 1032 0#8, fun _ => 0#8⟩

set_option maxRecDepth 20000 in
/-- The flasher pushes a word, DONE comes with its first bit, and of the 257 words that are
left the FIFO takes 256. -/
theorem flasher_waits_in_vain :
    ¬ ∀ (F : FifoSync Stamped 256) (s₀ : HostPath F) (env : Surroundings) (d : ℕ),
      F.contents s₀.fifo = [] → CardState.now (started F s₀ env).st ≤ d →
      (∀ t, env.doneSynced t = decide (d ≤ t)) → ∀ l : Loading, l.Free F s₀ env := by
  intro all
  let s : CardState := (fifoLoop longBitstream 2 (started _ idlePath earlyDone) 0).2.st
  obtain ⟨hlt, hsw, hgives, hlate⟩ : 1007 < s.now ∧ (s.wave earlyDone 0).csrSwrst = true ∧
      GivesUp (s.path _ idlePath earlyDone 1007) (s.wave earlyDone 1007) ∧
      256 < fill (s.path _ idlePath earlyDone 1007) +
        (flasherWords longBitstream - pushed (s.wave earlyDone) 1007) := by
    decide +kernel
  obtain ⟨more, hno⟩ := deadlock_of_late 0 (s := s) rfl (by decide) hlt ⟨0, by decide, hsw⟩ hgives hlate
  exact hno (all _ idlePath earlyDone 1007 rfl (by decide) (fun _ => rfl) _)

end Svec.Host.Deadlock
