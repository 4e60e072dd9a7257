/-
  Host/SvecFlasher.lean --- direct programming by the flasher, `svec-flasher.c`.

  `program_afpga` pushes a bitstream from one buffer in one loop and decides in
  the loop which entry is the last one: the one that holds less than a whole word.
-/
import Svec.Host.Stream

set_option autoImplicit false

namespace Svec.Host.SvecFlasher

open Svec.Data Svec.Hdl Svec.Host Svec.Host.Stream
open Svec.Host.SvecCore (FpgaImageInfo)

variable {M : Machine}

/-! ## The functions -/

/-- A store of a little-endian host through the mapped window: the bus carries its bytes
in memory order, most significant first. -/
def store (h : Proc M) (w addr : Word) : Proc M := h.write (byteSwap w) addr

/-- A load of a little-endian host through the mapped window. -/
def load (h : Proc M) (addr : Word) : Word × Proc M := (byteSwap (h.read addr).1, (h.read addr).2)

/-- `csr_writel`. -/
def csrWritel (h : Proc M) (data addr : Word) : Proc M := store h (htonl data) addr

/-- `csr_readl`. -/
def csrReadl (h : Proc M) (addr : Word) : Word × Proc M :=
  (byteSwap (load h addr).1, (load h addr).2)

/-- The FIFO loop of `program_afpga` from offset `i`, and whether it ended within the given
number of polls. -/
def fifoLoop (buf : Buffer) : ℕ → Proc M → ℕ → Bool × Proc M
  | 0, h, i => (decide (buf.bytes.length ≤ i), h)
  | polls + 1, h, i =>
    if i < buf.bytes.length then
      let csr := csrReadl h regFifoCsr
      if !csr.1.getLsbD fifoCsrFullBit then
        let word := buf.load i
        let n := if buf.bytes.length - i > 4 then 4 else buf.bytes.length - i
        let h := csrWritel csr.2
          (BitVec.ofNat 32 (n - 1) ||| (if n < 4 then fifoR0Xlast else 0#32)) regFifoR0
        fifoLoop buf polls (csrWritel h (htonl word) regFifoR1) (i + n)
      else fifoLoop buf polls csr.2 i
    else (true, h)

/-- The status loop of `program_afpga`; no result where it has not ended yet. -/
def statusLoop : ℕ → Proc M → Option Int × Proc M
  | 0, h => (none, h)
  | rounds + 1, h =>
    let rval := csrReadl h regCsr
    if rval.1.getLsbD csrDoneBit then
      (some (if rval.1.getLsbD csrErrorBit then -1 else 0), csrWritel rval.2 csrExit regCsr)
    else statusLoop rounds rval.2

/-- The writes of `program_afpga` before its FIFO loop. -/
def startAfpga (h : Proc M) : Proc M :=
  csrWritel (csrWritel h csrSwrst regCsr) (csrStart ||| csrMsbf) regCsr

/-- `program_afpga`. -/
def programAfpga (polls rounds : ℕ) (h : Proc M) (buf : Buffer) : Option Int × Proc M :=
  let fifo := fifoLoop buf polls (startAfpga h) 0
  if fifo.1 then statusLoop rounds fifo.2 else (none, fifo.2)

/-! ## What it pushes -/

theorem csrWritel_eq_write (h : Proc M) (data addr : Word) : csrWritel h data addr = h.write data addr := by
  rw [csrWritel, store, htonl, byteSwap_byteSwap]

theorem csrReadl_eq_read (h : Proc M) (addr : Word) : csrReadl h addr = h.read addr := by
  rw [csrReadl, load, byteSwap_byteSwap]

/-- The size and last flags as `FIFO_R0` carries them. -/
theorem fifoR0_flags {n : ℕ} (hn : 1 ≤ n) (hn4 : n ≤ 4) :
    let r0 := BitVec.ofNat 32 (n - 1) ||| (if n < 4 then fifoR0Xlast else 0#32)
    (r0.extractLsb' 0 2).toNat + 1 = n ∧ r0.getLsbD 2 = decide (n < 4) := by
  match n, hn, hn4 with
  | 1, _, _ => decide
  | 2, _, _ => decide
  | 3, _, _ => decide
  | 4, _, _ => decide

/-- One entry of the FIFO loop: the bytes at offset `i`, marked if they are not a whole
word. -/
theorem runs_entry (h : Proc M) (buf : Buffer) {i n : ℕ} (hn : 1 ≤ n) (hn4 : n ≤ 4)
    (hi : i + n ≤ buf.bytes.length) :
    ∃ p, Runs h ((h.write (BitVec.ofNat 32 (n - 1) ||| (if n < 4 then fifoR0Xlast else 0#32))
        regFifoR0).write (htonl (buf.load i)) regFifoR1) [p] ∧
      p.entry.xlast = decide (n < 4) ∧ p.entry.bytes true = (buf.bytes.drop i).take n := by
  obtain ⟨hxsize, hxlast⟩ := fifoR0_flags hn hn4
  refine ⟨_, runs_write_fifo _ _ _, hxlast, ?_⟩
  rw [← take_htonl_load buf hn4 hi, FifoEntry.bytes]
  simp only [fifoEntry, hxsize, if_true]

/-- What the FIFO loop pushes once it has ended: the rest of the buffer, its last entry
marked exactly if it is not a whole word. -/
theorem fifoLoop_runs (buf : Buffer) (polls : ℕ) (h : Proc M) (i : ℕ)
    (hi : 4 ∣ i ∨ buf.bytes.length ≤ i) (hend : (fifoLoop buf polls h i).1 = true) :
    ∃ ps, Runs h (fifoLoop buf polls h i).2 ps ∧ pushedBytes ps = buf.bytes.drop i ∧
      (i < buf.bytes.length → buf.bytes.length % 4 ≠ 0 → MarksFinal ps) ∧
      (4 ∣ i → buf.bytes.length % 4 = 0 → ∀ p ∈ ps, p.entry.xlast = false) := by
  induction polls generalizing h i with
  | zero =>
    have hle : buf.bytes.length ≤ i := by simpa [fifoLoop] using hend
    refine ⟨[], Runs.refl h, ?_, fun hlt => absurd hlt (by omega), fun _ _ p hp => ?_⟩
    · rw [List.drop_eq_nil_of_le hle]
      rfl
    · exact absurd hp (List.not_mem_nil)
  | succ polls ih =>
    unfold fifoLoop at hend ⊢
    by_cases hlt : i < buf.bytes.length
    swap
    · simp only [if_neg hlt]
      refine ⟨[], Runs.refl h, ?_, fun hlt' => absurd hlt' hlt, fun _ _ p hp => ?_⟩
      · rw [List.drop_eq_nil_of_le (by omega)]
        rfl
      · exact absurd hp (List.not_mem_nil)
    · simp only [if_pos hlt, csrReadl_eq_read, csrWritel_eq_write] at hend ⊢
      have hread : Runs h (h.read regFifoCsr).2 [] := runs_of_log rfl
      cases hfull : (h.read regFifoCsr).1.getLsbD fifoCsrFullBit with
      | true =>
        simp only [hfull, Bool.not_true, Bool.false_eq_true, if_false] at hend ⊢
        obtain ⟨ps, hps, hrest⟩ := ih _ i hi hend
        exact ⟨ps, hread.trans hps, hrest⟩
      | false =>
        simp only [hfull, Bool.not_false, if_true] at hend ⊢
        have hdvd : 4 ∣ i := hi.resolve_right (by omega)
        obtain ⟨n, hn⟩ : ∃ n, n = if buf.bytes.length - i > 4 then 4 else buf.bytes.length - i := ⟨_, rfl⟩
        obtain ⟨hn1, hn4, hle, hnext⟩ := chunk_range hlt hn
        rw [← hn] at hend ⊢
        obtain ⟨p, hp, hlast, hbytes⟩ := runs_entry (h.read regFifoCsr).2 buf hn1 hn4 hle
        obtain ⟨ps, hps, hrest, hmarks, hnone⟩ := ih _ (i + n) (hnext hdvd) hend
        refine ⟨p :: ps, hread.trans (hp.trans hps), ?_, fun _ hmod => ?_, fun _ hmod q hq => ?_⟩
        · show pushedBytes ([p] ++ ps) = _
          have hone : pushedBytes [p] = (buf.bytes.drop i).take n := by simp [pushedBytes, hbytes]
          rw [pushedBytes_append, hone, hrest, ← List.drop_drop, List.take_append_drop]
        · by_cases hmore : i + n < buf.bytes.length
          · -- A whole word with more to come: not marked.
            obtain ⟨qs, q, hqs, hq, hothers⟩ := hmarks hmore hmod
            have hp0 : p.entry.xlast = false := by
              rw [hlast]
              simp
              omega
            refine ⟨p :: qs, q, by rw [hqs]; rfl, hq, fun x hx => ?_⟩
            rcases List.mem_cons.mp hx with rfl | hx
            · exact hp0
            · exact hothers x hx
          · -- The final entry, and it is not a whole word.
            have hempty : pushedBytes ps = [] := by rw [hrest, List.drop_eq_nil_of_le (by omega)]
            obtain rfl := eq_nil_of_pushedBytes hempty
            refine ⟨[], p, rfl, ?_, fun x hx => absurd hx (List.not_mem_nil)⟩
            rw [hlast]
            simp
            omega
        · rcases List.mem_cons.mp hq with rfl | hq
          · rw [hlast]
            simp
            omega
          · exact hnone (by omega) hmod q hq

theorem startAfpga_runs (h : Proc M) : Runs h (startAfpga h) [] := by
  unfold startAfpga
  rw [csrWritel_eq_write, csrWritel_eq_write]
  exact (runs_write h csrSwrst (by decide) (by decide)).trans (runs_write _ _ (by decide) (by decide))

theorem statusLoop_runs (rounds : ℕ) (h : Proc M) : Runs h (statusLoop rounds h).2 [] := by
  induction rounds generalizing h with
  | zero => exact Runs.refl h
  | succ rounds ih =>
    have hread : Runs h (h.read regCsr).2 [] := runs_of_log rfl
    unfold statusLoop
    simp only [csrReadl_eq_read, csrWritel_eq_write]
    split
    · exact hread.trans (runs_write _ _ (by decide) (by decide))
    · exact hread.trans (ih _)

theorem programAfpga_runs (polls rounds : ℕ) (h : Proc M) (buf : Buffer) :
    Runs (fifoLoop buf polls (startAfpga h) 0).2 (programAfpga polls rounds h buf).2 [] := by
  unfold programAfpga
  simp only
  split
  · exact statusLoop_runs rounds _
  · exact Runs.refl _

/-! ## The FIFO loop ends -/

/-- The machine after a number of polls of `FIFO_CSR`. -/
def polled (s : M.State) : ℕ → M.State
  | 0 => s
  | n + 1 => polled (M.busRead s regFifoCsr).2 n

/-- However the machine stands, some later poll finds the FIFO not full. -/
def Drains (M : Machine) : Prop :=
  ∀ s : M.State, ∃ n, (M.busRead (polled s n) regFifoCsr).1.getLsbD fifoCsrFullBit = false

theorem fifoLoop_ends (hdrain : Drains M) (buf : Buffer) (h : Proc M) (i : ℕ) :
    ∃ polls, (fifoLoop buf polls h i).1 = true := by
  induction hleft : buf.bytes.length - i using Nat.strongRecOn generalizing h i with
  | ind left ih =>
    by_cases hlt : i < buf.bytes.length
    swap
    · exact ⟨0, by simp [fifoLoop]; omega⟩
    · -- Where a poll succeeds an entry goes out, and what is left gets shorter.
      have hfree : ∀ h : Proc M, (h.read regFifoCsr).1.getLsbD fifoCsrFullBit = false →
          ∃ polls, (fifoLoop buf polls h i).1 = true := by
        intro h hfull
        obtain ⟨k, hk⟩ : ∃ k, k = if buf.bytes.length - i > 4 then 4 else buf.bytes.length - i := ⟨_, rfl⟩
        obtain ⟨hk1, -⟩ := chunk_range hlt hk
        obtain ⟨polls, hend⟩ := ih (buf.bytes.length - (i + k)) (by omega)
          (((h.read regFifoCsr).2.write (BitVec.ofNat 32 (k - 1) ||| (if k < 4 then fifoR0Xlast else 0#32))
            regFifoR0).write (htonl (buf.load i)) regFifoR1) (i + k) rfl
        refine ⟨polls + 1, ?_⟩
        unfold fifoLoop
        simp only [if_pos hlt, csrReadl_eq_read, csrWritel_eq_write, hfull, Bool.not_false, if_true, ← hk]
        exact hend
      obtain ⟨n, hn⟩ := hdrain h.st
      induction n generalizing h with
      | zero => exact hfree h hn
      | succ n ihn =>
        cases hfull : (h.read regFifoCsr).1.getLsbD fifoCsrFullBit with
        | false => exact hfree h hfull
        | true =>
          obtain ⟨polls, hend⟩ := ihn (h.read regFifoCsr).2 hn
          refine ⟨polls + 1, ?_⟩
          unfold fifoLoop
          simp only [if_pos hlt, csrReadl_eq_read, hfull, Bool.not_true, Bool.false_eq_true, if_false]
          exact hend

/-! ## Against the driver -/

/-- Two programs agree on a bitstream: the same bytes, and in both the final entry is the
one that is marked. -/
def Agree (ps qs : List (Push M)) : Prop :=
  pushedBytes ps = pushedBytes qs ∧ MarksFinal ps ∧ MarksFinal qs

/-- What the driver takes in of a bitstream is all of it exactly if no chunk is longer than
its `int` offset reaches. -/
theorem flatMap_taken_eq_iff (bufs : List Buffer) :
    bufs.flatMap taken = bufs.flatMap Buffer.bytes ↔ ∀ b ∈ bufs, b.bytes.length ≤ 2 ^ 31 := by
  have hle : ∀ b : Buffer, (taken b).length ≤ b.bytes.length := fun b => by
    rw [taken, List.length_take]
    omega
  have hlen : ∀ bs : List Buffer,
      (bs.flatMap taken).length ≤ (bs.flatMap Buffer.bytes).length := by
    intro bs
    induction bs with
    | nil => exact Nat.le_refl _
    | cons b bs ih =>
      have := hle b
      simp only [List.flatMap_cons, List.length_append]
      omega
  constructor
  · intro heq b hb
    obtain ⟨before, after, rfl⟩ := List.append_of_mem hb
    have hcount := congrArg List.length heq
    simp only [List.flatMap_append, List.flatMap_cons, List.length_append] at hcount
    have h1 := hlen before
    have h2 := hlen after
    have h3 : (taken b).length = min (2 ^ 31) b.bytes.length := List.length_take
    have h4 := hle b
    omega
  · intro hall
    rw [List.flatMap_def, List.flatMap_def]
    congr 1
    exact List.map_congr_left fun b hb => List.take_of_length_le (hall b hb)

/-- A four-byte bitstream: the flasher marks no entry at all. -/
theorem flasher_misses_last :
    ¬ ∀ (M : Machine) (_ : LoaderFifo M) (h : Proc M) (buf : Buffer) (bufs : List Buffer)
      (polls rounds rounds' : ℕ) (info : FpgaImageInfo),
      buf.bytes ≠ [] → bufs.flatMap Buffer.bytes = buf.bytes →
      (session h bufs rounds' info).NeverBusy → (fifoLoop buf polls (startAfpga h) 0).1 = true →
      ∀ l l', (programAfpga polls rounds h buf).2.log = h.log ++ l →
        (session h bufs rounds' info).after.log = h.log ++ l' →
        Agree (pushes 0#32 l) (pushes 0#32 l') := by
  intro hall
  let buf : Buffer := ⟨[1#8, 2#8, 3#8, 4#8], fun _ => 0#8⟩
  let h : Proc attentiveCard := ⟨(), []⟩
  obtain ⟨-, hmarks, -⟩ := hall attentiveCard attentiveCard_fifo h buf [buf] 2 1 1 ⟨0#32⟩
    (by decide) (by decide) (session_neverBusy (fun s => by cases s; decide) h [buf] 1 ⟨0#32⟩)
    (by decide) _ _ rfl rfl
  obtain ⟨qs, q, hqs, hq, -⟩ := hmarks
  have hflags : (pushes 0#32 (programAfpga 2 1 h buf).2.log).map (fun p => p.entry.xlast) = [false] := by
    decide
  have hqs' : pushes 0#32 (programAfpga 2 1 h buf).2.log = qs ++ [q] := hqs
  rw [hqs', List.map_append] at hflags
  cases qs with
  | nil => simp [hq] at hflags
  | cons p qs => simp at hflags

/-- The flasher's FIFO loop always ends where the FIFO always drains, and it then agrees
with the driver exactly if the length of the bitstream is not a multiple of four and the
driver was given no chunk beyond the reach of its `int` offset. -/
theorem programs_agree_iff (L : LoaderFifo M) (hdrain : Drains M) (hf hd : Proc M) (buf : Buffer)
    (hne : buf.bytes ≠ []) (bufs : List Buffer) (hsplit : bufs.flatMap Buffer.bytes = buf.bytes)
    (rounds rounds' : ℕ) (info : FpgaImageInfo) (hok : (session hd bufs rounds' info).NeverBusy) :
    (∃ polls, (fifoLoop buf polls (startAfpga hf) 0).1 = true) ∧
    ∀ polls, (fifoLoop buf polls (startAfpga hf) 0).1 = true →
      ∃ l l', (programAfpga polls rounds hf buf).2.log = hf.log ++ l ∧
        (session hd bufs rounds' info).after.log = hd.log ++ l' ∧
        ∀ r0 r0', Agree (pushes r0 l) (pushes r0' l') ↔
          buf.bytes.length % 4 ≠ 0 ∧ ∀ b ∈ bufs, b.bytes.length ≤ 2 ^ 31 := by
  refine ⟨fifoLoop_ends hdrain buf _ 0, fun polls hend => ?_⟩
  obtain ⟨ps, hps, hbytes, hmarks, hnone⟩ := fifoLoop_runs buf polls _ 0 (Or.inl (Nat.dvd_zero 4)) hend
  obtain ⟨l, hl, hemits⟩ := (startAfpga_runs hf).trans (hps.trans (programAfpga_runs polls rounds hf buf))
  rw [List.append_nil, List.nil_append] at hemits
  obtain ⟨qs, ⟨l', hl', hemits'⟩, hbytes', hnil, hmarks', -⟩ := session_runs L hd bufs rounds' info hok
  refine ⟨l, l', hl, hl', fun r0 r0' => ?_⟩
  rw [hemits.pushes_eq r0, hemits'.pushes_eq r0']
  have hpos : 0 < buf.bytes.length := List.length_pos_iff.mpr hne
  constructor
  · rintro ⟨hsame, hmarked, -⟩
    refine ⟨fun hmod => ?_, ?_⟩
    · obtain ⟨init, p, hinit, hp, -⟩ := hmarked
      have hunmarked := hnone (Nat.dvd_zero 4) hmod p (by simp [hinit])
      rw [hp] at hunmarked
      exact absurd hunmarked (by decide)
    · rw [← flatMap_taken_eq_iff, hsplit, ← hbytes', ← hsame, hbytes]
      rfl
  · rintro ⟨hmod, hshort⟩
    have htaken : bufs.flatMap taken = buf.bytes := by
      rw [(flatMap_taken_eq_iff bufs).mpr hshort, hsplit]
    refine ⟨?_, hmarks hpos hmod, hmarks' (by rw [htaken]; exact hne)⟩
    rw [hbytes, hbytes', htaken]
    rfl

/-- Five bytes in two chunks: the two programs agree. -/
theorem programs_agree_iff_five :
    let buf : Buffer := ⟨[1#8, 2#8, 3#8, 4#8, 5#8], fun _ => 0#8⟩
    let bufs : List Buffer := [⟨[1#8, 2#8, 3#8], fun _ => 0#8⟩, ⟨[4#8, 5#8], fun _ => 0#8⟩]
    let h : Proc attentiveCard := ⟨(), []⟩
    ∃ l l', (programAfpga 3 1 h buf).2.log = h.log ++ l ∧
      (session h bufs 1 ⟨0#32⟩).after.log = h.log ++ l' ∧
      ∀ r0 r0', Agree (pushes r0 l) (pushes r0' l') ↔
        buf.bytes.length % 4 ≠ 0 ∧ ∀ b ∈ bufs, b.bytes.length ≤ 2 ^ 31 :=
  (programs_agree_iff attentiveCard_fifo (fun s => ⟨0, by cases s; decide⟩) ⟨(), []⟩ ⟨(), []⟩
    ⟨[1#8, 2#8, 3#8, 4#8, 5#8], fun _ => 0#8⟩ (by decide) _ (by decide) 1 1 ⟨0#32⟩
    (session_neverBusy (fun s => by cases s; decide) _ _ 1 ⟨0#32⟩)).2 3 (by decide)

end Svec.Host.SvecFlasher
