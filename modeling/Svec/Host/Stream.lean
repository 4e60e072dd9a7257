/-
  Host/Stream.lean --- the bitstream that the kernel driver pushes.

  At any point of a session the bytes given to the driver are the bytes of the
  entries it has pushed followed by the bytes of the word it holds back.  One word
  keeps this law, so the loop over a buffer does, so a sequence of `svec_fpga_write`
  does; `svec_fpga_write_complete` pushes the held word with the last flag.
-/
import Svec.Host.SvecCore

set_option autoImplicit false

namespace Svec.Host.Stream

open Svec.Data Svec.Hdl Svec.Host Svec.Host.SvecCore

variable {M : Machine}

/-- The bytes a list of pushed entries stands for, with `MSBF` set. -/
def pushedBytes (ps : List (Push M)) : List Byte := ps.flatMap fun p => p.entry.bytes true

@[simp] theorem pushedBytes_append (ps qs : List (Push M)) :
    pushedBytes (ps ++ qs) = pushedBytes ps ++ pushedBytes qs := by
  simp [pushedBytes]

/-- There is no entry without a byte. -/
theorem eq_nil_of_pushedBytes {ps : List (Push M)} (h : pushedBytes ps = []) : ps = [] := by
  cases ps with
  | nil => rfl
  | cons p ps =>
    have hlen := congrArg List.length h
    simp [pushedBytes, FifoEntry.length_bytes] at hlen

/-- The last flag is on the final entry and on no other. -/
def MarksFinal (ps : List (Push M)) : Prop :=
  ∃ qs q, ps = qs ++ [q] ∧ q.entry.xlast = true ∧ ∀ p ∈ qs, p.entry.xlast = false

/-- A word is held back. -/
def Holding (dev : SvecDev) : Prop :=
  1 ≤ dev.bitstreamLastWordSize.toNat ∧ dev.bitstreamLastWordSize.toNat ≤ 4

instance (dev : SvecDev) : Decidable (Holding dev) := inferInstanceAs (Decidable (_ ∧ _))

/-- The bytes of the word that is held back. -/
def pending (dev : SvecDev) : List Byte :=
  if Holding dev then
    (beBytes (htonl dev.bitstreamLastWord)).take dev.bitstreamLastWordSize.toNat
  else []

theorem pending_cleared : pending .cleared = [] := by
  simp [pending, Holding, SvecDev.cleared]

theorem not_holding_cleared : ¬ Holding .cleared := by
  simp [Holding, SvecDev.cleared]

/-! ## One word -/

/-- The poll ends with a read of `FIFO_CSR`, and writes nothing. -/
theorem pollFifoCsr_eq_read (h : Proc M) (tries : ℕ) :
    ∃ h' : Proc M, h'.log = h.log ∧ pollFifoCsr h tries = h'.read regFifoCsr := by
  induction tries generalizing h with
  | zero => exact ⟨h, rfl, rfl⟩
  | succ tries ih =>
    unfold pollFifoCsr
    split
    · obtain ⟨h', hlog, heq⟩ := ih (h.read regFifoCsr).2
      exact ⟨h', hlog, heq⟩
    · exact ⟨h, rfl, rfl⟩

/-- The size and last flags as `FIFO_R0` carries them. -/
theorem fifoR0_flags {n : ℕ} (hn : n ≤ 3) (isLast : Bool) :
    let r0 := (BitVec.ofInt 32 ((n + 1 : ℕ) - 1 : Int) &&& 0x3#32) |||
      (if isLast then fifoR0Xlast else 0#32)
    (r0.extractLsb' 0 2).toNat = n ∧ r0.getLsbD 2 = isLast := by
  match n, hn with
  | 0, _ => cases isLast <;> decide
  | 1, _ => cases isLast <;> decide
  | 2, _ => cases isLast <;> decide
  | 3, _ => cases isLast <;> decide

/-- A push into a FIFO with room. -/
def Fits (L : LoaderFifo M) (p : Push M) : Prop := L.fill p.before < 256

/-- The word held back is refused for its size, or gives up on a full FIFO, or is pushed
whole into a FIFO with room. -/
theorem writeWord_cases (L : LoaderFifo M) (h : Proc M) (dev : SvecDev) (isLast : Bool) :
    let r := svecFpgaWriteWord h dev.bitstreamLastWord (dev.bitstreamLastWordSize.toNat : Int) isLast
    (¬ Holding dev ∧ r = (-einval, h)) ∨ (r.1 = -ebusy ∧ Runs h r.2 []) ∨
      (Holding dev ∧ r.1 = 0 ∧ ∃ p, Runs h r.2 [p] ∧ Fits L p ∧ p.entry.xlast = isLast ∧
        p.entry.bytes true = pending dev) := by
  intro r
  by_cases hold : Holding dev
  swap
  · left
    refine ⟨hold, ?_⟩
    have hsize : (dev.bitstreamLastWordSize.toNat : Int) ≤ 0 ∨
        5 ≤ (dev.bitstreamLastWordSize.toNat : Int) := by
      unfold Holding at hold
      omega
    simp only [r, svecFpgaWriteWord, if_pos hsize]
  · right
    have hsize : ¬ ((dev.bitstreamLastWordSize.toNat : Int) ≤ 0 ∨
        5 ≤ (dev.bitstreamLastWordSize.toNat : Int)) := by
      unfold Holding at hold
      omega
    obtain ⟨h', hlog, hpoll⟩ := pollFifoCsr_eq_read h 10000
    have hquiet : Runs h (h'.read regFifoCsr).2 [] := runs_of_log hlog
    simp only [r, svecFpgaWriteWord, if_neg hsize, hpoll]
    cases hfull : (h'.read regFifoCsr).1.getLsbD fifoCsrFullBit with
    | true => exact Or.inl ⟨by simp, by simpa using hquiet⟩
    | false =>
      right
      obtain ⟨n, hn⟩ : ∃ n, dev.bitstreamLastWordSize.toNat = n + 1 :=
        ⟨dev.bitstreamLastWordSize.toNat - 1, by have := hold.1; omega⟩
      have hn3 : n ≤ 3 := by have := hold.2; omega
      obtain ⟨hxsize, hxlast⟩ := fifoR0_flags hn3 isLast
      refine ⟨hold, rfl, _, hquiet.trans (runs_write_fifo _ _ _), L.room hfull, ?_, ?_⟩
      · rw [hn]
        exact hxlast
      · rw [pending, if_pos hold, hn, FifoEntry.bytes]
        simp only [fifoEntry, hxsize, if_true]

/-! ## A buffer -/

/-- From one state of the driver to another, entries without the last flag are pushed while
there is room, and the bytes `bs` are taken in. -/
def Feeds (L : LoaderFifo M) (dev : SvecDev) (h : Proc M) (dev' : SvecDev) (h' : Proc M)
    (bs : List Byte) : Prop :=
  ∃ ps, Runs h h' ps ∧ (∀ p ∈ ps, Fits L p ∧ p.entry.xlast = false) ∧
    pushedBytes ps ++ pending dev' = pending dev ++ bs

theorem Feeds.refl (L : LoaderFifo M) (dev : SvecDev) (h : Proc M) : Feeds L dev h dev h [] :=
  ⟨[], Runs.refl h, by simp, by simp [pushedBytes]⟩

theorem Feeds.trans {L : LoaderFifo M} {dev₁ dev₂ dev₃ : SvecDev} {h₁ h₂ h₃ : Proc M}
    {bs cs : List Byte} (h : Feeds L dev₁ h₁ dev₂ h₂ bs) (h' : Feeds L dev₂ h₂ dev₃ h₃ cs) :
    Feeds L dev₁ h₁ dev₃ h₃ (bs ++ cs) := by
  obtain ⟨ps, hps, hfit, hbytes⟩ := h
  obtain ⟨qs, hqs, hfit', hbytes'⟩ := h'
  refine ⟨ps ++ qs, hps.trans hqs, fun p hp => ?_, ?_⟩
  · rcases List.mem_append.mp hp with hp | hp
    · exact hfit p hp
    · exact hfit' p hp
  · rw [pushedBytes_append, List.append_assoc, hbytes', ← List.append_assoc, hbytes,
      List.append_assoc]

/-- What `svec_fpga_write_buf` takes in of a buffer: its offset is an `int`. -/
def taken (buf : Buffer) : List Byte := buf.bytes.take (2 ^ 31)

theorem taken_split {buf : Buffer} {i : ℕ} (hlt : i < 2 ^ 31 ∧ i < buf.bytes.length) (hi : 4 ∣ i)
    {n : ℕ} (hn : n = if buf.bytes.length - i > 4 then 4 else buf.bytes.length - i) :
    (taken buf).drop i = (buf.bytes.drop i).take n ++ (taken buf).drop (i + n) ∧
      1 ≤ n ∧ n ≤ 4 ∧ i + n ≤ buf.bytes.length ∧ (4 ∣ i + n ∨ buf.bytes.length ≤ i + n) := by
  have hfour : i + 4 ≤ 2 ^ 31 := by omega
  obtain ⟨hn1, hn4, hend, hnext⟩ := chunk_range hlt.2 hn
  refine ⟨?_, hn1, hn4, hend, hnext hi⟩
  have htake : ((taken buf).drop i).take n = (buf.bytes.drop i).take n := by
    rw [taken, List.drop_take, List.take_take]
    congr 1
    omega
  rw [← htake, ← List.drop_drop, List.take_append_drop]

/-- A word of the buffer that the driver holds back stands for the bytes it was loaded from. -/
theorem pending_chunk (buf : Buffer) {i n : ℕ} (hi : 4 ∣ i) (hn1 : 1 ≤ n) (hn4 : n ≤ 4)
    (hend : i + n ≤ buf.bytes.length) :
    Holding ⟨buf.load (4 * (i >>> 2)), BitVec.ofNat 32 n⟩ ∧
      pending ⟨buf.load (4 * (i >>> 2)), BitVec.ofNat 32 n⟩ = (buf.bytes.drop i).take n := by
  have hload : 4 * (i >>> 2) = i := by
    rw [Nat.shiftRight_eq_div_pow]
    omega
  have hsize : (BitVec.ofNat 32 n).toNat = n := by
    rw [BitVec.toNat_ofNat]
    exact Nat.mod_eq_of_lt (by omega)
  have hhold : Holding ⟨buf.load (4 * (i >>> 2)), BitVec.ofNat 32 n⟩ := by
    unfold Holding
    dsimp only
    omega
  refine ⟨hhold, ?_⟩
  rw [pending, if_pos hhold, hsize, hload]
  exact take_htonl_load buf hn4 hend

/-- The word held back goes out, or there is none, and another one takes its place. -/
theorem feeds_pending (L : LoaderFifo M) (h : Proc M) (dev dev' : SvecDev) {i : ℕ}
    (hold : i ≠ 0 → Holding dev) :
    let w := svecFpgaWriteWord h dev.bitstreamLastWord (dev.bitstreamLastWordSize.toNat : Int) false
    w.1 = -ebusy ∨ ¬ (w.1 ≠ 0 ∧ ¬ (w.1 = -einval ∧ i = 0)) ∧ Feeds L dev h dev' w.2 (pending dev') := by
  intro w
  rcases writeWord_cases L h dev false with ⟨hno, hr⟩ | ⟨hbusy, -⟩ | ⟨-, hr, p, hp, hfit, hlast, hbytes⟩
  · have hi0 : i = 0 := by
      by_contra hne
      exact hno (hold hne)
    have hw : w = (-einval, h) := hr
    rw [hw]
    refine .inr ⟨fun hc => hc.2 ⟨rfl, hi0⟩, [], Runs.refl h, by simp, ?_⟩
    rw [pending.eq_def dev, if_neg hno]
    rfl
  · exact .inl hbusy
  · refine .inr ⟨fun hc => hc.1 hr, [p], hp, fun q hq => ?_, ?_⟩
    · rw [List.mem_singleton.mp hq]
      exact ⟨hfit, hlast⟩
    · simp [pushedBytes, hbytes]

/-- The loop over a buffer, from any offset it can be at. -/
theorem writeBufLoop_feeds (L : LoaderFifo M) (buf : Buffer) (dev : SvecDev) (h : Proc M) (i : ℕ)
    (hi : 4 ∣ i ∨ buf.bytes.length ≤ i) (hold : i ≠ 0 → Holding dev)
    (hok : (writeBufLoop buf dev h i).1 ≠ -ebusy) :
    (writeBufLoop buf dev h i).1 = 0 ∧
      Feeds L dev h (writeBufLoop buf dev h i).2.1 (writeBufLoop buf dev h i).2.2
        ((taken buf).drop i) ∧
      (i < (taken buf).length ∨ Holding dev → Holding (writeBufLoop buf dev h i).2.1) := by
  induction hleft : buf.bytes.length - i using Nat.strongRecOn generalizing dev h i with
  | ind left ih =>
    rw [writeBufLoop] at hok ⊢
    by_cases hlt : i < 2 ^ 31 ∧ i < buf.bytes.length
    swap
    · -- Past the end, or past the largest `int`: nothing is left to take in.
      have hlen : (taken buf).length ≤ i := by
        rw [taken, List.length_take]
        omega
      simp only [if_neg hlt]
      refine ⟨trivial, ?_, fun hh => hh.resolve_left (by omega)⟩
      rw [List.drop_eq_nil_of_le hlen]
      exact Feeds.refl L dev h
    · simp only [if_pos hlt] at hok ⊢
      have hdvd : 4 ∣ i := hi.resolve_right (by omega)
      obtain ⟨hsplit, hn1, hn4, hend, hnext⟩ := taken_split hlt hdvd rfl
      generalize hn : (if buf.bytes.length - i > 4 then 4 else buf.bytes.length - i) = n at *
      obtain ⟨dev', hdev'⟩ : ∃ dev' : SvecDev, dev' = ⟨buf.load (4 * (i >>> 2)), BitVec.ofNat 32 n⟩ :=
        ⟨_, rfl⟩
      obtain ⟨hhold', hpend'⟩ : Holding dev' ∧ pending dev' = (buf.bytes.drop i).take n :=
        hdev' ▸ pending_chunk buf hdvd hn1 hn4 hend
      -- The word before this one goes out, or there is none.
      have hword := feeds_pending L h dev dev' hold
      rw [hpend'] at hword
      generalize svecFpgaWriteWord h dev.bitstreamLastWord
        (dev.bitstreamLastWordSize.toNat : Int) false = w at hok hword ⊢
      obtain ⟨hcond, hstep⟩ := hword.resolve_left fun hbusy => by
        have hne : w.1 ≠ 0 ∧ ¬ (w.1 = -einval ∧ i = 0) := by
          rw [hbusy]
          exact ⟨by decide, fun hh => absurd hh.1 (by decide)⟩
        rw [if_pos hne] at hok
        exact hok hbusy
      simp only [if_neg hcond, ← hdev'] at hok ⊢
      obtain ⟨hzero, hfeeds, hholds⟩ := ih (buf.bytes.length - (i + n)) (by omega) dev' w.2 (i + n)
        hnext (fun _ => hhold') hok rfl
      refine ⟨hzero, ?_, fun _ => hholds (Or.inr hhold')⟩
      rw [hsplit]
      exact hstep.trans hfeeds

theorem svecFpgaWrite_feeds (L : LoaderFifo M) (buf : Buffer) (dev : SvecDev) (h : Proc M)
    (hok : (svecFpgaWrite dev h buf).1 ≠ -ebusy) :
    Feeds L dev h (svecFpgaWrite dev h buf).2.1 (svecFpgaWrite dev h buf).2.2 (taken buf) ∧
      (taken buf ≠ [] ∨ Holding dev → Holding (svecFpgaWrite dev h buf).2.1) := by
  obtain ⟨-, hfeeds, hholds⟩ := writeBufLoop_feeds L buf dev h 0 (Or.inl (Nat.dvd_zero 4))
    (fun hne => absurd rfl hne) hok
  refine ⟨hfeeds, fun hh => hholds ?_⟩
  rcases hh with hne | hh
  · exact Or.inl (List.length_pos_iff.mpr hne)
  · exact Or.inr hh

/-! ## A session -/

/-- A sequence of `svec_fpga_write`, with the value each returned. -/
def writeAll (dev : SvecDev) (h : Proc M) : List Buffer → List Int × SvecDev × Proc M
  | [] => ([], dev, h)
  | buf :: bufs =>
    let w := svecFpgaWrite dev h buf
    let rest := writeAll w.2.1 w.2.2 bufs
    (w.1 :: rest.1, rest.2)

theorem writeAll_feeds (L : LoaderFifo M) (bufs : List Buffer) (dev : SvecDev) (h : Proc M)
    (hok : ∀ r ∈ (writeAll dev h bufs).1, r ≠ -ebusy) :
    Feeds L dev h (writeAll dev h bufs).2.1 (writeAll dev h bufs).2.2 (bufs.flatMap taken) ∧
      (bufs.flatMap taken ≠ [] ∨ Holding dev → Holding (writeAll dev h bufs).2.1) := by
  induction bufs generalizing dev h with
  | nil => exact ⟨Feeds.refl L dev h, fun hh => hh.resolve_left (fun hne => hne rfl)⟩
  | cons buf bufs ih =>
    obtain ⟨hfeeds, hholds⟩ := svecFpgaWrite_feeds L buf dev h (hok _ (List.mem_cons_self ..))
    obtain ⟨hfeeds', hholds'⟩ := ih (svecFpgaWrite dev h buf).2.1 (svecFpgaWrite dev h buf).2.2
      fun r hr => hok r (List.mem_cons_of_mem _ hr)
    refine ⟨?_, fun hh => hholds' ?_⟩
    · rw [List.flatMap_cons]
      exact hfeeds.trans hfeeds'
    · rw [List.flatMap_cons] at hh
      by_cases hempty : bufs.flatMap taken = []
      · refine Or.inr (hholds ?_)
        rcases hh with hne | hh
        · left
          intro hbuf
          rw [hbuf, hempty] at hne
          exact hne rfl
        · exact Or.inr hh
      · exact Or.inl hempty

theorem svecFpgaReset_runs (h : Proc M) : Runs h (svecFpgaReset h).2 [] := by
  unfold svecFpgaReset
  simp only
  generalize bootUnlockSequence = seq
  induction seq generalizing h with
  | nil => exact Runs.refl h
  | cons b seq ih =>
    have hwrite : Runs h ((h.write b regBtrigr).mdelay 1) [] :=
      (runs_write h b (by decide) (by decide)).trans (runs_of_log rfl)
    exact hwrite.trans (ih _)

/-- `svec_fpga_write_init` pushes nothing. -/
theorem svecFpgaWriteInit_runs (h : Proc M) : Runs h (svecFpgaWriteInit h).2.2 [] := by
  have hreset := svecFpgaReset_runs h
  have hactive : Runs (svecFpgaReset h).2 (svecFpgaLoaderIsActive (svecFpgaReset h).2).2 [] :=
    runs_of_log rfl
  show Runs h (svecFpgaWriteStart h).2 []
  unfold svecFpgaWriteStart
  have hr : (svecFpgaReset h).1 = 0 := rfl
  simp only [hr, ne_eq, not_true_eq_false, if_false]
  split
  · exact hreset.trans hactive
  · have hsw := runs_write (svecFpgaLoaderIsActive (svecFpgaReset h).2).2 csrSwrst
      (a := regCsr) (by decide) (by decide)
    have hst := runs_write ((svecFpgaLoaderIsActive (svecFpgaReset h).2).2.write csrSwrst regCsr)
      (csrStart ||| csrMsbf) (a := regCsr) (by decide) (by decide)
    exact hreset.trans (hactive.trans (hsw.trans hst))

/-- The wait for DONE writes nothing. -/
theorem waitDone_log (h : Proc M) (timeout : BitVec 64) (rval : Word) (rounds : ℕ) :
    (waitDone h timeout rval rounds).2.log = h.log := by
  induction rounds generalizing h rval with
  | zero => rfl
  | succ rounds ih =>
    unfold waitDone
    simp only
    split
    · split
      · rfl
      · rw [ih]
        rfl
    · rfl

/-- The word that `svec_fpga_write_stop` writes first. -/
def lastWord (dev : SvecDev) (h : Proc M) : Int × Proc M :=
  svecFpgaWriteWord h dev.bitstreamLastWord (dev.bitstreamLastWordSize.toNat : Int) true

/-- After the last word `svec_fpga_write_stop` only reads, waits and writes CSR. -/
theorem svecFpgaWriteStop_runs (rounds : ℕ) (info : FpgaImageInfo) (dev : SvecDev) (h : Proc M) :
    Runs (lastWord dev h).2 (svecFpgaWriteStop rounds info dev h).2.2 [] := by
  have hexit : ∀ h' : Proc M, Runs h' ((h'.write csrExit regCsr).usleepRange 10000 20000) [] :=
    fun h' => (runs_write h' csrExit (by decide) (by decide)).trans (runs_of_log rfl)
  have hwait : ∀ timeout, Runs (lastWord dev h).2
      (waitDone (lastWord dev h).2.getJiffies64.2 timeout 0#32 rounds).2 [] :=
    fun timeout => runs_of_log (waitDone_log _ _ _ _)
  unfold svecFpgaWriteStop
  unfold lastWord at hwait ⊢
  simp only
  split
  · exact hexit _
  · split
    · exact hwait _
    · exact (hwait _).trans (hexit _)

/-- A full FIFO is reported to the caller. -/
theorem svecFpgaWriteStop_ebusy (rounds : ℕ) (info : FpgaImageInfo) {dev : SvecDev} {h : Proc M}
    (hbusy : (lastWord dev h).1 = -ebusy) :
    (svecFpgaWriteStop rounds info dev h).1 = some (-ebusy) := by
  unfold svecFpgaWriteStop
  unfold lastWord at hbusy
  have hgo : (-ebusy : Int) ≠ 0 ∧ (-ebusy : Int) ≠ -einval := by decide
  simp only [hbusy, if_pos hgo]

/-- `svec_fpga_write_complete` pushes the word held back, marked as the last one. -/
theorem svecFpgaWriteComplete_pushes (L : LoaderFifo M) (rounds : ℕ) (info : FpgaImageInfo)
    (dev : SvecDev) (h : Proc M)
    (hok : (svecFpgaWriteComplete rounds info dev h).1 ≠ some (-ebusy)) :
    (¬ Holding dev ∧ Runs h (svecFpgaWriteComplete rounds info dev h).2.2 []) ∨
      (Holding dev ∧ ∃ p, Runs h (svecFpgaWriteComplete rounds info dev h).2.2 [p] ∧ Fits L p ∧
        p.entry.xlast = true ∧ p.entry.bytes true = pending dev) := by
  have hafter : Runs (lastWord dev h).2 (svecFpgaWriteComplete rounds info dev h).2.2 [] :=
    svecFpgaWriteStop_runs rounds info dev h
  rcases writeWord_cases L h dev true with ⟨hno, hr⟩ | ⟨hbusy, -⟩ | ⟨hh, -, p, hp, hfit, hlast, hbytes⟩
  · have hsame : (lastWord dev h).2 = h := congrArg Prod.snd hr
    rw [hsame] at hafter
    exact Or.inl ⟨hno, hafter⟩
  · exact absurd (svecFpgaWriteStop_ebusy rounds info hbusy) hok
  · exact Or.inr ⟨hh, p, hp.trans hafter, hfit, hlast, hbytes⟩

/-! ## The whole session -/

/-- A call of the FPGA manager, with the rounds its status loop is given. -/
inductive Call where
  | writeInit
  | write (buf : Buffer)
  | writeComplete (rounds : ℕ) (info : FpgaImageInfo)

/-- What a call leaves behind, whatever it returned. -/
def Call.run (s : SvecDev × Proc M) : Call → SvecDev × Proc M
  | .writeInit => (svecFpgaWriteInit s.2).2
  | .write buf => (svecFpgaWrite s.1 s.2 buf).2
  | .writeComplete rounds info => (svecFpgaWriteComplete rounds info s.1 s.2).2

/-- A session: the values its calls returned, and the program after it. -/
structure Session (M : Machine) where
  init : Int
  writes : List Int
  complete : Option Int
  after : Proc M

/-- `svec_fpga_write_init`, `svec_fpga_write` for each buffer, `svec_fpga_write_complete`. -/
def session (h : Proc M) (bufs : List Buffer) (rounds : ℕ) (info : FpgaImageInfo) : Session M :=
  let init := svecFpgaWriteInit h
  let writes := writeAll init.2.1 init.2.2 bufs
  let complete := svecFpgaWriteComplete rounds info writes.2.1 writes.2.2
  { init := init.1, writes := writes.1, complete := complete.1, after := complete.2.2 }

/-- No word of the session gave up on a full FIFO. -/
def Session.NeverBusy (s : Session M) : Prop :=
  (∀ r ∈ s.writes, r ≠ -ebusy) ∧ s.complete ≠ some (-ebusy)

/-- What a session pushes: the bytes taken in, in order, the final entry marked, each entry
while there is room. -/
theorem session_runs (L : LoaderFifo M) (h : Proc M) (bufs : List Buffer) (rounds : ℕ)
    (info : FpgaImageInfo) (hok : (session h bufs rounds info).NeverBusy) :
    ∃ ps, Runs h (session h bufs rounds info).after ps ∧ pushedBytes ps = bufs.flatMap taken ∧
      (bufs.flatMap taken = [] → ps = []) ∧ (bufs.flatMap taken ≠ [] → MarksFinal ps) ∧
      ∀ p ∈ ps, Fits L p := by
  obtain ⟨hok, hok'⟩ := hok
  have hinit := svecFpgaWriteInit_runs h
  obtain ⟨⟨ps, hps, hfit, hbytes⟩, hholds⟩ := writeAll_feeds L bufs (svecFpgaWriteInit h).2.1
    (svecFpgaWriteInit h).2.2 hok
  have hbytes' : pushedBytes ps ++
      pending (writeAll (svecFpgaWriteInit h).2.1 (svecFpgaWriteInit h).2.2 bufs).2.1 =
      bufs.flatMap taken := by
    rw [hbytes]
    show pending .cleared ++ _ = _
    rw [pending_cleared, List.nil_append]
  rcases svecFpgaWriteComplete_pushes L rounds info _ _ hok' with ⟨hno, hend⟩ | ⟨hh, p, hend, hpfit, hlast, hpbytes⟩
  · rw [pending, if_neg hno, List.append_nil] at hbytes'
    have hempty : bufs.flatMap taken = [] := by
      by_contra hne
      exact hno (hholds (Or.inl hne))
    have hnil : ps = [] := eq_nil_of_pushedBytes (hbytes'.trans hempty)
    refine ⟨ps, ?_, hbytes', fun _ => hnil, fun hne => absurd hempty hne, fun p hp => (hfit p hp).1⟩
    have hall := hinit.trans (hps.trans hend)
    rw [List.append_nil, List.nil_append] at hall
    exact hall
  · refine ⟨ps ++ [p], hinit.trans (hps.trans hend), ?_, fun hempty => ?_, fun _ => ?_, ?_⟩
    · rw [pushedBytes_append, ← hbytes', ← hpbytes]
      simp [pushedBytes]
    · exfalso
      have hlen := congrArg List.length (hbytes'.trans hempty)
      rw [← hpbytes, List.length_append, FifoEntry.length_bytes] at hlen
      simp at hlen
    · exact ⟨ps, p, rfl, hlast, fun q hq => (hfit q hq).2⟩
    · intro q hq
      rcases List.mem_append.mp hq with hq | hq
      · exact (hfit q hq).1
      · rw [List.mem_singleton.mp hq]
        exact hpfit

/-! ## A FIFO that is never full -/

section NeverFull

variable (hfree : ∀ s, (M.busRead s regFifoCsr).1.getLsbD fifoCsrFullBit = false)

include hfree

theorem writeWord_ne_ebusy (h : Proc M) (word : Word) (size : Int) (isLast : Bool) :
    (svecFpgaWriteWord h word size isLast).1 ≠ -ebusy := by
  obtain ⟨h', -, hpoll⟩ := pollFifoCsr_eq_read h 10000
  have hfull : (h'.read regFifoCsr).1.getLsbD fifoCsrFullBit = false := hfree h'.st
  unfold svecFpgaWriteWord
  split
  · exact (by decide : -einval ≠ -ebusy)
  · simp only [hpoll, hfull, Bool.false_eq_true, if_false]
    decide

theorem writeBufLoop_ne_ebusy (buf : Buffer) (dev : SvecDev) (h : Proc M) (i : ℕ) :
    (writeBufLoop buf dev h i).1 ≠ -ebusy := by
  induction dev, h, i using writeBufLoop.induct buf with
  | case1 dev h i hlt word hstop =>
    rw [writeBufLoop, if_pos hlt]
    simp only
    rw [if_pos hstop]
    exact writeWord_ne_ebusy hfree _ _ _ _
  | case2 dev h i hlt word hgo n ih =>
    rw [writeBufLoop, if_pos hlt]
    simp only
    rw [if_neg hgo]
    exact ih
  | case3 dev h i hend =>
    rw [writeBufLoop, if_neg hend]
    exact (by decide : (0 : Int) ≠ -ebusy)

/-- On a FIFO that is never full no session is ever busy. -/
theorem session_neverBusy (h : Proc M) (bufs : List Buffer) (rounds : ℕ) (info : FpgaImageInfo) :
    (session h bufs rounds info).NeverBusy := by
  constructor
  · show ∀ r ∈ (writeAll (svecFpgaWriteInit h).2.1 (svecFpgaWriteInit h).2.2 bufs).1, r ≠ -ebusy
    generalize (svecFpgaWriteInit h).2.1 = dev
    generalize (svecFpgaWriteInit h).2.2 = h'
    induction bufs generalizing dev h' with
    | nil => intro r hr; exact absurd hr (List.not_mem_nil)
    | cons buf bufs ih =>
      intro r hr
      rcases List.mem_cons.mp hr with rfl | hr
      · exact writeBufLoop_ne_ebusy hfree buf dev h' 0
      · exact ih _ _ r hr
  · show (svecFpgaWriteStop rounds info _ _).1 ≠ some (-ebusy)
    unfold svecFpgaWriteStop
    simp only
    split
    · exact fun hsome => writeWord_ne_ebusy hfree _ _ _ _ (Option.some.inj hsome)
    · split
      · exact fun hnone => absurd hnone (by simp)
      · intro hsome
        have herr := Option.some.inj hsome
        revert herr
        (repeat' split) <;> decide

end NeverFull

/-- Whatever was done with the device before: a session in which no word gives up on a full
FIFO pushes exactly the bitstream, marks the final entry and no other, and never pushes
into a full FIFO. -/
theorem session_pushes_bitstream (L : LoaderFifo M) (dev₀ : SvecDev) (h₀ : Proc M)
    (past : List Call) (bufs : List Buffer) (rounds : ℕ) (info : FpgaImageInfo)
    (hsize : (bufs.flatMap Buffer.bytes).length < 2 ^ 31)
    (hactive : (session (past.foldl Call.run (dev₀, h₀)).2 bufs rounds info).init = 0)
    (hok : (session (past.foldl Call.run (dev₀, h₀)).2 bufs rounds info).NeverBusy) :
    ∃ l, (session (past.foldl Call.run (dev₀, h₀)).2 bufs rounds info).after.log =
        (past.foldl Call.run (dev₀, h₀)).2.log ++ l ∧
      ∀ r0, pushedBytes (pushes r0 l) = bufs.flatMap Buffer.bytes ∧
        (if bufs.flatMap Buffer.bytes = [] then pushes r0 l = [] else MarksFinal (pushes r0 l)) ∧
        ∀ p ∈ pushes r0 l, L.fill p.before < 256 := by
  have htaken : bufs.flatMap taken = bufs.flatMap Buffer.bytes := by
    rw [List.flatMap_def, List.flatMap_def]
    congr 1
    apply List.map_congr_left
    intro buf hbuf
    apply List.take_of_length_le
    obtain ⟨before, after, rfl⟩ := List.append_of_mem hbuf
    simp only [List.flatMap_append, List.flatMap_cons, List.length_append] at hsize
    omega
  obtain ⟨ps, ⟨l, hlog, hemits⟩, hbytes, hnil, hmarks, hfit⟩ := session_runs L _ bufs rounds info hok
  refine ⟨l, hlog, fun r0 => ?_⟩
  rw [hemits.pushes_eq r0, ← htaken]
  refine ⟨hbytes, ?_, hfit⟩
  split
  · exact hnil ‹_›
  · exact hmarks ‹_›

/-- Five bytes in two chunks, after a session that was abandoned half-way. -/
theorem session_pushes_bitstream_five :
    let h : Proc attentiveCard := ⟨(), []⟩
    let past : List Call := [.writeInit, .write ⟨[9#8, 8#8, 7#8, 6#8, 5#8], fun _ => 0xff#8⟩]
    let bufs : List Buffer := [⟨[1#8, 2#8, 3#8], fun _ => 0xaa#8⟩, ⟨[4#8, 5#8], fun _ => 0xaa#8⟩]
    ∃ l, (session (past.foldl Call.run (.cleared, h)).2 bufs 1 ⟨0#32⟩).after.log =
        (past.foldl Call.run (.cleared, h)).2.log ++ l ∧
      ∀ r0, pushedBytes (pushes r0 l) = bufs.flatMap Buffer.bytes ∧
        (if bufs.flatMap Buffer.bytes = [] then pushes r0 l = [] else MarksFinal (pushes r0 l)) ∧
        ∀ p ∈ pushes r0 l, attentiveCard_fifo.fill p.before < 256 :=
  session_pushes_bitstream attentiveCard_fifo .cleared ⟨(), []⟩ _ _ 1 ⟨0#32⟩ (by decide) rfl
    (session_neverBusy (fun s => by cases s; decide) _ _ 1 ⟨0#32⟩)

end Svec.Host.Stream
