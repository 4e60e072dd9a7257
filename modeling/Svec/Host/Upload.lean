/-
  Host/Upload.lean --- a bitstream from the host to the configuration pins.

  Both host programs feed the FIFO in the same way: they read registers, wait, and
  write an entry right after they have read that the FIFO is not full.  Whatever a
  program does of this kind, the FIFO of the card accepts exactly the entries that
  it writes.  With the law of the loader behind the FIFO, what comes out at the pins
  is what the program was given.
-/
import Svec.Host.LoaderCard
import Svec.Loader.Delivery

set_option autoImplicit false

namespace Svec.Host.Upload

open Svec.Data Svec.Sync Svec.Hdl Svec.Host Svec.Host.LoaderCard Svec.Loader.Session
  Svec.Loader.Serialise Svec.Loader.Delivery
open Svec.Loader.Stuck (fill pushOf)
open Svec.Host.SvecCore (FpgaImageInfo SvecDev svecFpgaWriteWord pollFifoCsr writeBufLoop waitDone
  svecFpgaWriteInit svecFpgaWriteStart svecFpgaWriteStop svecFpgaReset svecFpgaLoaderIsActive)
open Svec.Host.SvecFlasher (fifoLoop startAfpga statusLoop programAfpga csrReadl_eq_read
  csrWritel_eq_write)
open Svec.Host.Stream (pushedBytes MarksFinal writeAll session taken lastWord)

/-! ## Programs that feed the FIFO -/

section Programs

variable {M : Machine}

/-- From one state of a program to another it reads, waits, and writes the entries given, each
after a read of `FIFO_CSR` without FULL. -/
inductive Feeding : Proc M → Proc M → List FifoEntry → Prop where
  | refl (h : Proc M) : Feeding h h []
  | read {h g : Proc M} {es : List FifoEntry} (hg : Feeding h g es) (a : Word) :
      Feeding h (g.read a).2 es
  | usleepRange {h g : Proc M} {es : List FifoEntry} (hg : Feeding h g es) (lo hi : ℕ) :
      Feeding h (g.usleepRange lo hi) es
  | getJiffies64 {h g : Proc M} {es : List FifoEntry} (hg : Feeding h g es) :
      Feeding h g.getJiffies64.2 es
  | entry {h g : Proc M} {es : List FifoEntry} (hg : Feeding h g es) (r0 r1 : Word)
      (hfree : (g.read regFifoCsr).1.getLsbD fifoCsrFullBit = false) :
      Feeding h (((g.read regFifoCsr).2.write r0 regFifoR0).write r1 regFifoR1)
        (es ++ [fifoEntry r0 r1])

variable {h g k : Proc M} {es fs : List FifoEntry}

theorem Feeding.trans (hg : Feeding h g es) (hk : Feeding g k fs) : Feeding h k (es ++ fs) := by
  induction hk with
  | refl => rw [List.append_nil]; exact hg
  | read _ a ih => exact ih.read a
  | usleepRange _ lo hi ih => exact ih.usleepRange lo hi
  | getJiffies64 _ ih => exact ih.getJiffies64
  | entry _ r0 r1 hfree ih => rw [← List.append_assoc]; exact ih.entry r0 r1 hfree

theorem runs_of_same_log {ps : List (Push M)} (hps : Runs h g ps) (hlog : k.log = g.log) :
    Runs h k ps := by
  obtain ⟨l, hl, hemits⟩ := hps
  exact ⟨l, hlog.trans hl, hemits⟩

/-- The entries that are written are the ones that the bus writes push. -/
theorem Feeding.runs (hg : Feeding h g es) :
    ∃ ps, Runs h g ps ∧ ps.map (fun p => p.entry) = es := by
  induction hg with
  | refl => exact ⟨[], Runs.refl h, rfl⟩
  | read _ a ih =>
    obtain ⟨ps, hps, hes⟩ := ih
    exact ⟨ps, runs_of_same_log hps rfl, hes⟩
  | usleepRange _ lo hi ih =>
    obtain ⟨ps, hps, hes⟩ := ih
    exact ⟨ps, runs_of_same_log hps rfl, hes⟩
  | getJiffies64 _ ih =>
    obtain ⟨ps, hps, hes⟩ := ih
    exact ⟨ps, runs_of_same_log hps rfl, hes⟩
  | @entry g es _ r0 r1 _ ih =>
    obtain ⟨ps, hps, hes⟩ := ih
    have hread : Runs g (g.read regFifoCsr).2 [] := runs_of_log rfl
    refine ⟨ps ++ [⟨_, fifoEntry r0 r1⟩], hps.trans (hread.trans (runs_write_fifo _ r0 r1)), ?_⟩
    rw [List.map_append, hes]
    rfl

theorem Feeding.entries_eq (hg : Feeding h g es) {ps : List (Push M)} (hps : Runs h g ps) :
    es = ps.map fun p => p.entry := by
  obtain ⟨qs, ⟨l, hl, hemits⟩, hes⟩ := hg.runs
  obtain ⟨l', hl', hemits'⟩ := hps
  have hsame : l = l' := List.append_cancel_left (hl.symm.trans hl')
  rw [← hes, ← hemits.pushes_eq 0#32, hsame, hemits'.pushes_eq 0#32]

/-! ### The driver -/

theorem feeding_pollFifoCsr (h : Proc M) (tries : ℕ) :
    ∃ g, Feeding h g [] ∧ pollFifoCsr h tries = g.read regFifoCsr := by
  induction tries generalizing h with
  | zero => exact ⟨h, .refl h, rfl⟩
  | succ tries ih =>
    unfold pollFifoCsr
    split
    · obtain ⟨g, hg, heq⟩ := ih (h.read regFifoCsr).2
      exact ⟨g, ((Feeding.refl h).read regFifoCsr).trans hg, heq⟩
    · exact ⟨h, .refl h, rfl⟩

theorem feeding_writeWord (h : Proc M) (word : Word) (size : Int) (isLast : Bool) :
    ∃ es, Feeding h (svecFpgaWriteWord h word size isLast).2 es := by
  unfold svecFpgaWriteWord
  split
  · exact ⟨[], .refl h⟩
  · obtain ⟨g, hg, hpoll⟩ := feeding_pollFifoCsr h 10000
    simp only [hpoll]
    cases hfull : (g.read regFifoCsr).1.getLsbD fifoCsrFullBit with
    | true => exact ⟨[], by simpa using hg.read regFifoCsr⟩
    | false => exact ⟨_, by simpa using hg.entry _ _ hfull⟩

theorem feeding_writeBufLoop (buf : Buffer) (dev : SvecDev) (h : Proc M) (i : ℕ) :
    ∃ es, Feeding h (writeBufLoop buf dev h i).2.2 es := by
  induction dev, h, i using Svec.Host.SvecCore.writeBufLoop.induct buf with
  | case1 dev h i hlt word hstop =>
    rw [writeBufLoop, if_pos hlt]
    simp only
    rw [if_pos hstop]
    exact feeding_writeWord h _ _ _
  | case2 dev h i hlt word hgo n ih =>
    rw [writeBufLoop, if_pos hlt]
    simp only
    rw [if_neg hgo]
    obtain ⟨es, hes⟩ := feeding_writeWord h dev.bitstreamLastWord
      (dev.bitstreamLastWordSize.toNat : Int) false
    obtain ⟨fs, hfs⟩ := ih
    exact ⟨es ++ fs, hes.trans hfs⟩
  | case3 dev h i hend =>
    rw [writeBufLoop, if_neg hend]
    exact ⟨[], .refl h⟩

theorem feeding_writeAll (bufs : List Buffer) (dev : SvecDev) (h : Proc M) :
    ∃ es, Feeding h (writeAll dev h bufs).2.2 es := by
  induction bufs generalizing dev h with
  | nil => exact ⟨[], .refl h⟩
  | cons buf bufs ih =>
    obtain ⟨es, hes⟩ := feeding_writeBufLoop buf dev h 0
    obtain ⟨fs, hfs⟩ := ih (SvecCore.svecFpgaWrite dev h buf).2.1 (SvecCore.svecFpgaWrite dev h buf).2.2
    exact ⟨es ++ fs, hes.trans hfs⟩

theorem feeding_waitDone (h : Proc M) (timeout : BitVec 64) (rval : Word) (rounds : ℕ) :
    Feeding h (waitDone h timeout rval rounds).2 [] := by
  induction rounds generalizing h rval with
  | zero => exact .refl h
  | succ rounds ih =>
    have hread := ((Feeding.refl h).getJiffies64).read regCsr
    unfold waitDone
    simp only
    split
    · split
      · exact hread
      · exact (hread.usleepRange 900 1100).trans (ih _ _)
    · exact (Feeding.refl h).getJiffies64

/-! ### The flasher -/

theorem feeding_fifoLoop (buf : Buffer) (polls : ℕ) (h : Proc M) (i : ℕ) :
    ∃ es, Feeding h (fifoLoop buf polls h i).2 es := by
  induction polls generalizing h i with
  | zero => exact ⟨[], .refl h⟩
  | succ polls ih =>
    unfold fifoLoop
    split
    · simp only [csrReadl_eq_read, csrWritel_eq_write]
      cases hfull : (h.read regFifoCsr).1.getLsbD fifoCsrFullBit with
      | true =>
        obtain ⟨es, hes⟩ := ih (h.read regFifoCsr).2 i
        exact ⟨es, ((Feeding.refl h).read regFifoCsr).trans hes⟩
      | false =>
        simp only [Bool.not_false, if_true]
        obtain ⟨es, hes⟩ := ih _ _
        exact ⟨_, ((Feeding.refl h).entry _ _ hfull).trans hes⟩
    · exact ⟨[], .refl h⟩

/-- The end of a program: nothing more, or EXIT. -/
inductive Ends (h : Proc M) : Proc M → Prop where
  | here : Ends h h
  | exit : Ends h (h.write csrExit regCsr)
  | exitAndSleep : Ends h ((h.write csrExit regCsr).usleepRange 10000 20000)

theorem statusLoop_ends (rounds : ℕ) (h : Proc M) :
    ∃ g, Feeding h g [] ∧ Ends g (statusLoop rounds h).2 := by
  induction rounds generalizing h with
  | zero => exact ⟨h, .refl h, .here⟩
  | succ rounds ih =>
    unfold statusLoop
    simp only [csrReadl_eq_read, csrWritel_eq_write]
    split
    · exact ⟨_, (Feeding.refl h).read regCsr, .exit⟩
    · obtain ⟨g, hg, hends⟩ := ih (h.read regCsr).2
      exact ⟨g, ((Feeding.refl h).read regCsr).trans hg, hends⟩

/-- After the last word `svec_fpga_write_stop` waits, and writes EXIT. -/
theorem writeStop_ends (rounds : ℕ) (info : FpgaImageInfo) (dev : SvecDev) (h : Proc M) :
    ∃ g, Feeding (lastWord dev h).2 g [] ∧ Ends g (svecFpgaWriteStop rounds info dev h).2.2 := by
  unfold svecFpgaWriteStop lastWord
  simp only
  split
  · exact ⟨_, .refl _, .exitAndSleep⟩
  · have hwait := fun timeout => ((Feeding.refl (svecFpgaWriteWord h dev.bitstreamLastWord
      (dev.bitstreamLastWordSize.toNat : Int) true).2).getJiffies64).trans
        (feeding_waitDone _ timeout 0#32 rounds)
    split
    · exact ⟨_, hwait _, .here⟩
    · exact ⟨_, hwait _, .exitAndSleep⟩

end Programs

/-! ## The card under such a program -/

/-- A cycle in which the register block at most pushes: the flags of CSR are as in `r`. -/
structure Tame (r : CardRegs) (i : HostIn) : Prop where
  rstN : i.rstN = true
  csrSwrst : i.csrSwrst = false
  csrStart : i.csrStart = false
  csrMsbf : i.csrMsbf = r.csrMsbf
  csrExit : i.csrExit = false
  csrClkdiv : i.csrClkdiv = r.csrClkdiv
  fifoClearBus : i.fifoClearBus = false

/-- Two register files with the same flags of CSR. -/
def SameCsr (r r' : CardRegs) : Prop := r'.csrMsbf = r.csrMsbf ∧ r'.csrClkdiv = r.csrClkdiv

/-- From `s` to `s'` the register block at most pushes, and the FIFO accepts the entries `es`. -/
structure Uploads {F : FifoSync Stamped 256} (s₀ : HostPath F) (env : Surroundings)
    (s s' : CardState) (es : List FifoEntry) : Prop where
  le : s.now ≤ s'.now
  same : ∀ t, t < s.now → s'.wave env t = s.wave env t
  csr : SameCsr s.regs s'.regs
  tame : ∀ t, s.now ≤ t → t < s'.now → Tame s.regs (s'.wave env t)
  taken : accepted s₀ (s'.wave env) s.now (s'.now - s.now) = es

section Card

variable {F : FifoSync Stamped 256} {s₀ : HostPath F} {env : Surroundings}
  {s s' s'' : CardState} {es fs : List FifoEntry}

theorem tame_quiet (r : CardRegs) (t : ℕ) : Tame r (quiet env r t) := ⟨rfl, rfl, rfl, rfl, rfl, rfl, rfl⟩

theorem Tame.of_same {r r' : CardRegs} {i : HostIn} (h : Tame r' i) (hsame : SameCsr r r') : Tame r i :=
  ⟨h.rstN, h.csrSwrst, h.csrStart, h.csrMsbf.trans hsame.1, h.csrExit, h.csrClkdiv.trans hsame.2,
    h.fifoClearBus⟩

theorem accepted_congr {inp inp' : ℕ → HostIn} {a n : ℕ} (h : ∀ t, t < a + n → inp t = inp' t) :
    accepted s₀ inp a n = accepted s₀ inp' a n := by
  refine collect_congr fun k hk => ?_
  have htrace : trace s₀ inp (a + k) = trace s₀ inp' (a + k) :=
    run_congr fun t ht => by rw [h t (by omega)]
  rw [htrace, h (a + k) (by omega)]

theorem Uploads.refl (s₀ : HostPath F) (env : Surroundings) (s : CardState) : Uploads s₀ env s s [] where
  le := Nat.le_refl _
  same _ _ := rfl
  csr := ⟨rfl, rfl⟩
  tame t h h' := absurd h' (Nat.not_lt.mpr h)
  taken := by rw [Nat.sub_self]; rfl

theorem Uploads.trans (h : Uploads s₀ env s s' es) (h' : Uploads s₀ env s' s'' fs) :
    Uploads s₀ env s s'' (es ++ fs) where
  le := Nat.le_trans h.le h'.le
  same t ht := (h'.same t (Nat.lt_of_lt_of_le ht h.le)).trans (h.same t ht)
  csr := ⟨h'.csr.1.trans h.csr.1, h'.csr.2.trans h.csr.2⟩
  tame t ht ht' := by
    by_cases hmid : t < s'.now
    · rw [h'.same t hmid]
      exact h.tame t ht hmid
    · exact (h'.tame t (Nat.not_lt.mp hmid) ht').of_same h.csr
  taken := by
    have hle := h.le
    have hle' := h'.le
    have hsame : ∀ t, t < s.now + (s'.now - s.now) → s''.wave env t = s'.wave env t :=
      fun t ht => h'.same t (by omega)
    rw [show s''.now - s.now = (s'.now - s.now) + (s''.now - s'.now) by omega, accepted_add,
      show s.now + (s'.now - s.now) = s'.now by omega, h'.taken, accepted_congr hsame, h.taken]

/-- One access that leaves CSR alone. -/
theorem uploads_access {i : HostIn} {r : CardRegs} (hi : Tame s.regs i) (hr : SameCsr s.regs r) :
    Uploads s₀ env s (s.access env i r) (accepts (s.path F s₀ env (s.due env)) i) where
  le := Nat.le_succ_of_le (now_le_due env s)
  same t ht := wave_access_of_lt (Nat.lt_of_lt_of_le ht (now_le_due env s))
  csr := hr
  tame t ht ht' := by
    rcases Nat.lt_succ_iff_lt_or_eq.mp ht' with hlt | rfl
    · rw [wave_access_of_lt hlt, wave_of_now_le ht]
      exact tame_quiet s.regs t
    · rw [wave_access_due]
      exact hi
  taken := by
    have hdue := now_le_due env s
    have hnow : (s.access env i r).now - s.now = (s.due env - s.now) + 1 := by
      show s.due env + 1 - s.now = _
      omega
    have hpath : trace s₀ ((s.access env i r).wave env) (s.due env) = s.path F s₀ env (s.due env) :=
      path_congr fun k hk => wave_access_of_lt hk
    have hwait : accepted s₀ ((s.access env i r).wave env) s.now (s.due env - s.now) = [] := by
      refine collect_eq_nil fun k hk => ?_
      rw [wave_access_of_lt (by omega), wave_of_now_le (by omega)]
      simp [accepts, quiet]
    rw [hnow, accepted_succ, hwait, show s.now + (s.due env - s.now) = s.due env by omega, hpath,
      wave_access_due, List.nil_append]

theorem uploads_quiet {r : CardRegs} (hr : SameCsr s.regs r) :
    Uploads s₀ env s (s.access env (quiet env s.regs (s.due env)) r) [] := by
  have h : Uploads s₀ env s (s.access env (quiet env s.regs (s.due env)) r) _ :=
    uploads_access (tame_quiet s.regs (s.due env)) hr
  have hnone : accepts (s.path F s₀ env (s.due env)) (quiet env s.regs (s.due env)) = [] := by
    simp [accepts, quiet]
  rwa [hnone] at h

theorem uploads_pause (s : CardState) : Uploads s₀ env s (s.pause env) [] :=
  uploads_quiet ⟨rfl, rfl⟩

theorem uploads_read (g : Proc (loaderCard F s₀ env)) (a : Word) :
    Uploads s₀ env g.st (g.read a).2.st [] :=
  have h : Uploads s₀ env g.st (CardState.pause env g.st) [] := uploads_pause g.st
  ⟨h.le, h.same, h.csr, h.tame, h.taken⟩

/-- An entry that is written after a read without FULL is accepted. -/
theorem uploads_entry (g : Proc (loaderCard F s₀ env)) (r0 r1 : Word)
    (hfree : (g.read regFifoCsr).1.getLsbD fifoCsrFullBit = false) :
    Uploads s₀ env g.st (((g.read regFifoCsr).2.write r0 regFifoR0).write r1 regFifoR1).st
      [fifoEntry r0 r1] := by
  have hsup := supplies_entry g r0 r1 hfree
  have hread := uploads_read g regFifoCsr
  obtain ⟨b, hb⟩ : ∃ b : CardState, b = (g.read regFifoCsr).2.st := ⟨_, rfl⟩
  obtain ⟨k, hk⟩ : ∃ k : CardState, k = b.access env (quiet env b.regs (b.due env))
      { b.regs with fifoR0 := r0 } := ⟨_, rfl⟩
  obtain ⟨i, hi⟩ : ∃ i : HostIn, i = { quiet env k.regs (k.due env) with
      fifoPush := some (fifoEntry k.regs.fifoR0 r1) } := ⟨_, rfl⟩
  have hend : (((g.read regFifoCsr).2.write r0 regFifoR0).write r1 regFifoR1).st =
      k.access env i k.regs := by
    rw [hi, hk, hb]
    rfl
  have hr0 : Uploads s₀ env b k [] := hk ▸ uploads_quiet ⟨rfl, rfl⟩
  rw [← hb] at hread
  rw [hend] at hsup ⊢
  have hentry : i.fifoPush = some (fifoEntry r0 r1) := by rw [hi, hk]; rfl
  have hroom : F.wrFull (k.path F s₀ env (k.due env)).fifo = false := by
    have hle := Nat.le_trans (Nat.le_trans hread.le hr0.le) (now_le_due env k)
    have hat := hsup.room (k.due env) hle (Nat.lt_succ_self _)
      (by rw [wave_access_due, hentry]; rfl)
    rwa [path_congr fun t ht => wave_access_of_lt ht] at hat
  have hwrite : Uploads s₀ env k (k.access env i k.regs) [fifoEntry r0 r1] := by
    have h : Uploads s₀ env k (k.access env i k.regs) _ := uploads_access (i := i)
      (by rw [hi]; exact ⟨rfl, rfl, rfl, rfl, rfl, rfl, rfl⟩) ⟨rfl, rfl⟩
    have htaken : accepts (k.path F s₀ env (k.due env)) i = [fifoEntry r0 r1] := by
      simp [accepts, hroom, hentry]
    rwa [htaken] at h
  exact hread.trans (hr0.trans hwrite)

/-- The FIFO accepts what such a program writes. -/
theorem Feeding.uploads {h g : Proc (loaderCard F s₀ env)} (hg : Feeding h g es) :
    Uploads s₀ env h.st g.st es := by
  induction hg with
  | refl => exact .refl s₀ env h.st
  | read _ a ih => simpa using ih.trans (uploads_read _ a)
  | usleepRange _ lo hi ih =>
    have h := ih.trans (uploads_pause _)
    rw [List.append_nil] at h
    exact h
  | getJiffies64 _ ih => exact ih
  | entry _ r0 r1 hfree ih => exact ih.trans (uploads_entry _ r0 r1 hfree)

end Card

end Svec.Host.Upload
