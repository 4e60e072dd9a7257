/-
  Host/WriteStop.lean --- the end of a programming run, `svec_fpga_write_stop`.

  After the last word the driver waits for DONE.  Each round looks at the clock, and
  only while the deadline is not there does it read CSR; then it sleeps.  So the last
  look is never followed by a read: where the deadline passes between a read and the
  next look, the driver reports a timeout of a loader that may long be done.

  The machine is run beside a record of what the program does with it.  `Missed` says
  when a timeout is reported on reads that are all older than the deadline.
-/
import Svec.Host.SvecCore
import Mathlib.Logic.Function.Iterate
import Mathlib.Data.List.Flatten

set_option autoImplicit false

namespace Svec.Host.WriteStop

open Svec.Data Svec.Hdl Svec.Host Svec.Host.SvecCore

variable {M : Machine}

/-! ## A round of the wait -/

/-- `time_before64`. -/
def timeBefore64 (a b : BitVec 64) : Bool := (a - b).msb

section Round

variable (h : Proc M) {timeout : BitVec 64} (rval : Word) (rounds : ℕ)

/-- The deadline is there: the loop ends with the status it has. -/
theorem waitDone_late (hlate : timeBefore64 h.getJiffies64.1 timeout = false) :
    waitDone h timeout rval (rounds + 1) = ((true, rval), h.getJiffies64.2) := by
  unfold timeBefore64 at hlate
  simp only [waitDone, hlate, Bool.false_eq_true, if_false]

/-- The loader is done. -/
theorem waitDone_done (hearly : timeBefore64 h.getJiffies64.1 timeout = true)
    (hdone : (h.getJiffies64.2.read regCsr).1.getLsbD csrDoneBit = true) :
    waitDone h timeout rval (rounds + 1) =
      ((true, (h.getJiffies64.2.read regCsr).1), (h.getJiffies64.2.read regCsr).2) := by
  unfold timeBefore64 at hearly
  simp only [waitDone, hearly, hdone, if_true]

/-- The loader is not done, and there is time left. -/
theorem waitDone_open (hearly : timeBefore64 h.getJiffies64.1 timeout = true)
    (hdone : (h.getJiffies64.2.read regCsr).1.getLsbD csrDoneBit = false) :
    waitDone h timeout rval (rounds + 1) =
      waitDone ((h.getJiffies64.2.read regCsr).2.usleepRange 900 1100) timeout
        (h.getJiffies64.2.read regCsr).1 rounds := by
  unfold timeBefore64 at hearly
  simp only [waitDone, hearly, hdone, if_true, Bool.false_eq_true, if_false]

end Round

/-! ## A machine with a record -/

/-- What a program does with its machine. -/
inductive Access (M : Machine) where
  /-- A read: the state of the machine when it begins, the register, and the value. -/
  | read (before : M.State) (addr value : Word)
  | write (value addr : Word)
  /-- A look at the clock. -/
  | look (jiffies : BitVec 64)

/-- The machine that keeps a record of the accesses. -/
def recorded (M : Machine) : Machine where
  State := M.State × List (Access M)
  busRead s a :=
    ((M.busRead s.1 a).1, (M.busRead s.1 a).2, s.2 ++ [.read s.1 a (M.busRead s.1 a).1])
  busWrite s v a := (M.busWrite s.1 v a, s.2 ++ [.write v a])
  mdelay s ms := (M.mdelay s.1 ms, s.2)
  usleepRange s lo hi := (M.usleepRange s.1 lo hi, s.2)
  getJiffies64 s :=
    ((M.getJiffies64 s.1).1, (M.getJiffies64 s.1).2, s.2 ++ [.look (M.getJiffies64 s.1).1])
  usecsToJiffies := M.usecsToJiffies

/-- The program without the record. -/
def erase (h : Proc (recorded M)) : Proc M :=
  ⟨h.st.1, h.log.map fun w => ⟨w.before.1, w.value, w.addr⟩⟩

/-! ### Erasure -/

@[simp] theorem erase_read (h : Proc (recorded M)) (a : Word) :
    erase (h.read a).2 = ((erase h).read a).2 := rfl

@[simp] theorem read_value (h : Proc (recorded M)) (a : Word) :
    (h.read a).1 = ((erase h).read a).1 := rfl

@[simp] theorem erase_write (h : Proc (recorded M)) (v a : Word) :
    erase (h.write v a) = (erase h).write v a :=
  congrArg (Proc.mk (M.busWrite h.st.1 v a)) List.map_append

@[simp] theorem erase_usleepRange (h : Proc (recorded M)) (lo hi : ℕ) :
    erase (h.usleepRange lo hi) = (erase h).usleepRange lo hi := rfl

@[simp] theorem erase_getJiffies64 (h : Proc (recorded M)) :
    erase h.getJiffies64.2 = (erase h).getJiffies64.2 := rfl

@[simp] theorem getJiffies64_value (h : Proc (recorded M)) :
    h.getJiffies64.1 = (erase h).getJiffies64.1 := rfl

theorem erase_pollFifoCsr (h : Proc (recorded M)) (tries : ℕ) :
    (pollFifoCsr h tries).1 = (pollFifoCsr (erase h) tries).1 ∧
      erase (pollFifoCsr h tries).2 = (pollFifoCsr (erase h) tries).2 := by
  induction tries generalizing h with
  | zero => exact ⟨rfl, rfl⟩
  | succ tries ih =>
    unfold pollFifoCsr
    rw [read_value]
    by_cases hfull : ((erase h).read regFifoCsr).1.getLsbD fifoCsrFullBit = true
    · rw [if_pos hfull, if_pos hfull]
      exact ih (h.read regFifoCsr).2
    · rw [if_neg hfull, if_neg hfull]
      exact ⟨rfl, rfl⟩

theorem erase_svecFpgaWriteWord (h : Proc (recorded M)) (word : Word) (size : Int) (isLast : Bool) :
    (svecFpgaWriteWord h word size isLast).1 = (svecFpgaWriteWord (erase h) word size isLast).1 ∧
      erase (svecFpgaWriteWord h word size isLast).2 =
        (svecFpgaWriteWord (erase h) word size isLast).2 := by
  obtain ⟨hvalue, hrest⟩ := erase_pollFifoCsr h 10000
  unfold svecFpgaWriteWord
  by_cases hsize : size ≤ 0 ∨ 5 ≤ size
  · rw [if_pos hsize, if_pos hsize]
    exact ⟨rfl, rfl⟩
  · rw [if_neg hsize, if_neg hsize]
    simp only [hvalue]
    split
    · exact ⟨rfl, hrest⟩
    · exact ⟨rfl, by rw [erase_write, erase_write, hrest]⟩

theorem erase_waitDone (h : Proc (recorded M)) (timeout : BitVec 64) (rval : Word) (rounds : ℕ) :
    (waitDone h timeout rval rounds).1 = (waitDone (erase h) timeout rval rounds).1 ∧
      erase (waitDone h timeout rval rounds).2 = (waitDone (erase h) timeout rval rounds).2 := by
  induction rounds generalizing h rval with
  | zero => exact ⟨rfl, rfl⟩
  | succ rounds ih =>
    cases hearly : timeBefore64 (erase h).getJiffies64.1 timeout with
    | false =>
      rw [waitDone_late h rval rounds hearly, waitDone_late (erase h) rval rounds hearly]
      exact ⟨rfl, rfl⟩
    | true =>
      cases hdone : ((erase h).getJiffies64.2.read regCsr).1.getLsbD csrDoneBit with
      | true =>
        rw [waitDone_done h rval rounds hearly hdone, waitDone_done (erase h) rval rounds hearly hdone]
        exact ⟨rfl, rfl⟩
      | false =>
        rw [waitDone_open h rval rounds hearly hdone, waitDone_open (erase h) rval rounds hearly hdone]
        exact ih _ _

/-- On the recorded machine the driver does what it does. -/
theorem erase_svecFpgaWriteStop (rounds : ℕ) (info : FpgaImageInfo) (dev : SvecDev)
    (h : Proc (recorded M)) :
    (svecFpgaWriteStop rounds info dev h).1 = (svecFpgaWriteStop rounds info dev (erase h)).1 ∧
      (svecFpgaWriteStop rounds info dev h).2.1 = (svecFpgaWriteStop rounds info dev (erase h)).2.1 ∧
      erase (svecFpgaWriteStop rounds info dev h).2.2 =
        (svecFpgaWriteStop rounds info dev (erase h)).2.2 := by
  obtain ⟨hvalue, hrest⟩ := erase_svecFpgaWriteWord h dev.bitstreamLastWord
    (dev.bitstreamLastWordSize.toNat : Int) true
  unfold svecFpgaWriteStop
  simp only [hvalue]
  split
  · exact ⟨rfl, rfl, by rw [erase_usleepRange, erase_write, hrest]⟩
  · obtain ⟨hwait, hend⟩ := erase_waitDone
      (svecFpgaWriteWord h dev.bitstreamLastWord (dev.bitstreamLastWordSize.toNat : Int) true).2.getJiffies64.2
      ((svecFpgaWriteWord h dev.bitstreamLastWord (dev.bitstreamLastWordSize.toNat : Int)
        true).2.getJiffies64.1 + configTimeout (recorded M) info) 0#32 rounds
    rw [erase_getJiffies64, getJiffies64_value, hrest] at hwait hend
    have hto : configTimeout (recorded M) info = configTimeout M info := rfl
    simp only [getJiffies64_value, hrest, hto] at hwait hend ⊢
    simp only [hwait]
    split
    · exact ⟨rfl, rfl, hend⟩
    · exact ⟨rfl, rfl, by rw [erase_usleepRange, erase_write, hend]⟩

/-! ## The wait -/

section Wait

variable (s : M.State)

/-- A round of the wait that does not end it: a look, a read, and a sleep. -/
def openRound (s : M.State) : M.State :=
  M.usleepRange (M.busRead (M.getJiffies64 s).2 regCsr).2 900 1100

/-- The machine as a round of the wait finds it. -/
def roundStart (k : ℕ) : M.State := openRound^[k] s

/-- What a round sees on the clock. -/
def jiffiesAt (k : ℕ) : BitVec 64 := (M.getJiffies64 (roundStart s k)).1

/-- The machine as the read of a round finds it. -/
def readFrom (k : ℕ) : M.State := (M.getJiffies64 (roundStart s k)).2

/-- What a round reads. -/
def csrAt (k : ℕ) : Word := (M.busRead (readFrom s k) regCsr).1

/-- The status that a round finds in `rval`. -/
def statusBefore : ℕ → Word
  | 0 => 0#32
  | k + 1 => csrAt s k

/-- The accesses of a round that gets to its read. -/
def roundTrace (k : ℕ) : List (Access M) :=
  [.look (jiffiesAt s k), .read (readFrom s k) regCsr (csrAt s k)]

/-- The accesses of the first rounds. -/
def openTrace (k : ℕ) : List (Access M) := (List.range k).flatMap (roundTrace s)

/-- The round does not end the wait. -/
structure Open (timeout : BitVec 64) (k : ℕ) : Prop where
  early : timeBefore64 (jiffiesAt s k) timeout = true
  undone : (csrAt s k).getLsbD csrDoneBit = false

/-- How a wait of a number of rounds comes out: whether it has ended, the status, and the
accesses. -/
inductive Outcome (timeout : BitVec 64) (rounds : ℕ) : Bool × Word → List (Access M) → Prop where
  | late {k : ℕ} (hlt : k < rounds) (hopen : ∀ i < k, Open s timeout i)
      (hlate : timeBefore64 (jiffiesAt s k) timeout = false) :
      Outcome timeout rounds (true, statusBefore s k) (openTrace s k ++ [.look (jiffiesAt s k)])
  | done {k : ℕ} (hlt : k < rounds) (hopen : ∀ i < k, Open s timeout i)
      (hearly : timeBefore64 (jiffiesAt s k) timeout = true)
      (hdone : (csrAt s k).getLsbD csrDoneBit = true) :
      Outcome timeout rounds (true, csrAt s k) (openTrace s (k + 1))
  | going (hopen : ∀ i < rounds, Open s timeout i) :
      Outcome timeout rounds (false, statusBefore s rounds) (openTrace s rounds)

theorem roundStart_succ (k : ℕ) : roundStart s (k + 1) = openRound (roundStart s k) :=
  Function.iterate_succ_apply' openRound k s

theorem openTrace_succ (k : ℕ) : openTrace s (k + 1) = openTrace s k ++ roundTrace s k := by
  unfold openTrace
  rw [List.range_succ, List.flatMap_append, List.flatMap_singleton]

/-- The wait from one of its rounds on, where the rounds before have not ended it. -/
theorem waitDone_outcome_from {timeout : BitVec 64} {l : List (Access M)} (rounds : ℕ) {j : ℕ}
    {h : Proc (recorded M)} (hst : h.st = (roundStart s j, l ++ openTrace s j))
    (hopen : ∀ i < j, Open s timeout i) :
    ∃ tr, Outcome s timeout (j + rounds) (waitDone h timeout (statusBefore s j) rounds).1 tr ∧
      (waitDone h timeout (statusBefore s j) rounds).2.st.2 = l ++ tr := by
  induction rounds generalizing j h with
  | zero => exact ⟨openTrace s j, .going hopen, congrArg Prod.snd hst⟩
  | succ rounds ih =>
    have hlook : h.getJiffies64 =
        (jiffiesAt s j, ⟨(readFrom s j, l ++ openTrace s j ++ [.look (jiffiesAt s j)]), h.log⟩) := by
      simp only [Proc.getJiffies64, hst]
      rfl
    have hread : h.getJiffies64.2.read regCsr =
        (csrAt s j, ⟨((M.busRead (readFrom s j) regCsr).2, l ++ openTrace s (j + 1)), h.log⟩) := by
      have htrace : l ++ openTrace s (j + 1) = l ++ openTrace s j ++ [.look (jiffiesAt s j)] ++
          [.read (readFrom s j) regCsr (csrAt s j)] := by
        simp [openTrace_succ, roundTrace]
      rw [hlook, htrace]
      rfl
    cases hearly : timeBefore64 (jiffiesAt s j) timeout with
    | false =>
      rw [waitDone_late h _ rounds (by rw [hlook]; exact hearly)]
      exact ⟨_, .late (by omega) hopen hearly, by rw [hlook, List.append_assoc]⟩
    | true =>
      cases hdone : (csrAt s j).getLsbD csrDoneBit with
      | true =>
        rw [waitDone_done h _ rounds (by rw [hlook]; exact hearly) (by rw [hread]; exact hdone), hread]
        exact ⟨_, .done (by omega) hopen hearly hdone, rfl⟩
      | false =>
        rw [waitDone_open h _ rounds (by rw [hlook]; exact hearly) (by rw [hread]; exact hdone), hread]
        have hnext : ∀ i < j + 1, Open s timeout i := by
          intro i hi
          rcases Nat.lt_succ_iff_lt_or_eq.mp hi with hlt | rfl
          · exact hopen i hlt
          · exact ⟨hearly, hdone⟩
        rw [show j + (rounds + 1) = j + 1 + rounds by omega]
        exact ih (by rw [roundStart_succ]; rfl) hnext

theorem waitDone_outcome (timeout : BitVec 64) (rounds : ℕ) {h : Proc (recorded M)} {l : List (Access M)}
    (hst : h.st = (s, l)) :
    ∃ tr, Outcome s timeout rounds (waitDone h timeout 0#32 rounds).1 tr ∧
      (waitDone h timeout 0#32 rounds).2.st.2 = l ++ tr := by
  have hstart : h.st = (roundStart s 0, l ++ openTrace s 0) := by
    rw [hst]
    exact congrArg (Prod.mk s) (List.append_nil l).symm
  have hout := @waitDone_outcome_from M s timeout l rounds 0 h hstart fun i hi => absurd hi (Nat.not_lt_zero i)
  rw [Nat.zero_add] at hout
  exact hout

end Wait

/-! ## Accesses of CSR -/

/-- The access is one of CSR. -/
def Access.ofCsr : Access M → Bool
  | .read _ addr _ => addr = regCsr
  | .write _ addr => addr = regCsr
  | .look _ => false

/-- What an access reads of CSR. -/
def Access.csrRead? : Access M → Option Word
  | .read _ addr value => if addr = regCsr then some value else none
  | .write _ _ => none
  | .look _ => none

/-- The last value that was read of CSR. -/
def lastCsr (l : List (Access M)) : Option Word := (l.filterMap Access.csrRead?).getLast?

theorem lastCsr_write (l : List (Access M)) (v a : Word) : lastCsr (l ++ [.write v a]) = lastCsr l := by
  simp [lastCsr, Access.csrRead?]

/-- CSR is left alone. -/
def Elsewhere (l : List (Access M)) : Prop := ∀ e ∈ l, e.ofCsr = false

theorem Elsewhere.append_one {l : List (Access M)} (h : Elsewhere l) {e : Access M} (he : e.ofCsr = false) :
    Elsewhere (l ++ [e]) := by
  intro e' hmem
  rcases List.mem_append.mp hmem with hl | hone
  · exact h e' hl
  · rw [List.mem_singleton.mp hone]
    exact he

theorem Elsewhere.not_read {l : List (Access M)} (h : Elsewhere l) {before : M.State} {v : Word} :
    .read before regCsr v ∉ l := fun hmem => by
  have hno := h _ hmem
  simp [Access.ofCsr] at hno

theorem Elsewhere.not_write {l : List (Access M)} (h : Elsewhere l) {v : Word} :
    .write v regCsr ∉ l := fun hmem => by
  have hno := h _ hmem
  simp [Access.ofCsr] at hno

theorem elsewhere_pollFifoCsr {h : Proc (recorded M)} (he : Elsewhere h.st.2) (tries : ℕ) :
    Elsewhere (pollFifoCsr h tries).2.st.2 := by
  have hread : ∀ {h : Proc (recorded M)}, Elsewhere h.st.2 → Elsewhere (h.read regFifoCsr).2.st.2 :=
    fun he => he.append_one rfl
  induction tries generalizing h with
  | zero => exact hread he
  | succ tries ih =>
    unfold pollFifoCsr
    split
    · exact ih (hread he)
    · exact hread he

theorem elsewhere_svecFpgaWriteWord {h : Proc (recorded M)} (he : Elsewhere h.st.2) (word : Word)
    (size : Int) (isLast : Bool) : Elsewhere (svecFpgaWriteWord h word size isLast).2.st.2 := by
  have hpoll := elsewhere_pollFifoCsr he 10000
  unfold svecFpgaWriteWord
  split
  · exact he
  · dsimp only
    split
    · exact hpoll
    · exact (hpoll.append_one rfl).append_one rfl

section Wait

variable (s : M.State)

theorem lastCsr_round (k : ℕ) (l : List (Access M)) : lastCsr (l ++ roundTrace s k) = some (csrAt s k) := by
  simp [lastCsr, roundTrace, Access.csrRead?]

/-- The reads of the wait are those of its rounds. -/
theorem mem_openTrace {k : ℕ} {before : M.State} {addr value : Word}
    (h : .read before addr value ∈ openTrace s k) :
    ∃ i < k, before = readFrom s i ∧ value = csrAt s i := by
  obtain ⟨i, hi, hmem⟩ := List.mem_flatMap.mp h
  refine ⟨i, List.mem_range.mp hi, ?_⟩
  simp only [roundTrace, List.mem_cons, reduceCtorEq, false_or, List.not_mem_nil, or_false,
    Access.read.injEq] at hmem
  exact ⟨hmem.1, hmem.2.2⟩

theorem read_mem_openTrace {i k : ℕ} (hi : i < k) :
    .read (readFrom s i) regCsr (csrAt s i) ∈ openTrace s k :=
  List.mem_flatMap.mpr ⟨i, List.mem_range.mpr hi, by simp [roundTrace]⟩

theorem write_not_mem_openTrace (k : ℕ) (v a : Word) : .write v a ∉ openTrace s k := by
  intro h
  obtain ⟨i, -, hmem⟩ := List.mem_flatMap.mp h
  simp [roundTrace] at hmem

/-- In the wait CSR is read, and never written. -/
theorem Outcome.no_write {timeout : BitVec 64} {rounds : ℕ} {w : Bool × Word} {tr : List (Access M)}
    (h : Outcome s timeout rounds w tr) (v a : Word) : .write v a ∉ tr := by
  cases h with
  | late hlt hopen hlate =>
    intro hmem
    rcases List.mem_append.mp hmem with hl | hone
    · exact write_not_mem_openTrace s _ v a hl
    · exact absurd (List.mem_singleton.mp hone) (by simp)
  | done => exact write_not_mem_openTrace s _ v a
  | going => exact write_not_mem_openTrace s _ v a

end Wait

/-! ## The whole of `svec_fpga_write_stop` -/

/-- What `svec_fpga_write_word` makes of the pending word. -/
def pendingWord (dev : SvecDev) (h : Proc M) : Int × Proc M :=
  svecFpgaWriteWord h dev.bitstreamLastWord (dev.bitstreamLastWordSize.toNat : Int) true

/-- What `svec_fpga_write_stop` returns, if it returns, and its accesses. -/
def stopRun (rounds : ℕ) (info : FpgaImageInfo) (dev : SvecDev) (s : M.State) : Option Int × List (Access M) :=
  let run := svecFpgaWriteStop rounds info dev (⟨(s, []), []⟩ : Proc (recorded M))
  (run.1, run.2.2.st.2)

section Stop

variable (info : FpgaImageInfo) (dev : SvecDev) (s : M.State)

/-- The FIFO stays full: the pending word cannot be pushed. -/
def Busy : Prop := (pendingWord dev (⟨s, []⟩ : Proc M)).1 = -ebusy

/-- The clock once the pending word is out, or there was none. -/
def afterWord : BitVec 64 × Proc M := (pendingWord dev (⟨s, []⟩ : Proc M)).2.getJiffies64

/-- The deadline of the wait. -/
def deadline : BitVec 64 := (afterWord dev s).1 + configTimeout M info

/-- The machine at the start of the wait. -/
def waitStart : M.State := (afterWord dev s).2.st

/-- The accesses of `svec_fpga_write_word`. -/
def wordTrace : List (Access M) := (pendingWord dev (⟨(s, []), []⟩ : Proc (recorded M))).2.st.2

/-- What the driver makes of the last status. -/
def verdict (status : Word) : Int :=
  if status.getLsbD csrErrorBit then -einval else if status.getLsbD csrDoneBit then 0 else -eio

/-- The pending word is pushed, there is none, or the FIFO stays full. -/
theorem pendingWord_value (h : Proc M) : (pendingWord dev h).1 = 0 ∨ (pendingWord dev h).1 = -einval ∨
    (pendingWord dev h).1 = -ebusy := by
  unfold pendingWord svecFpgaWriteWord
  split
  · exact .inr (.inl rfl)
  · dsimp only
    split
    · exact .inr (.inr rfl)
    · exact .inl rfl

theorem elsewhere_wordTrace : Elsewhere (wordTrace dev s) :=
  @elsewhere_svecFpgaWriteWord M ⟨(s, []), []⟩ (fun _ h => nomatch h) _ _ _

theorem erase_pendingWord : (pendingWord dev (⟨(s, []), []⟩ : Proc (recorded M))).1 =
      (pendingWord dev (⟨s, []⟩ : Proc M)).1 ∧
    erase (pendingWord dev (⟨(s, []), []⟩ : Proc (recorded M))).2 =
      (pendingWord dev (⟨s, []⟩ : Proc M)).2 :=
  erase_svecFpgaWriteWord (⟨(s, []), []⟩ : Proc (recorded M)) _ _ _

/-- What it returns is what it returns without the record. -/
theorem stopRun_value (rounds : ℕ) :
    (stopRun rounds info dev s).1 = (svecFpgaWriteStop rounds info dev (⟨s, []⟩ : Proc M)).1 :=
  (erase_svecFpgaWriteStop rounds info dev (⟨(s, []), []⟩ : Proc (recorded M))).1

/-- With a full FIFO the driver leaves at once. -/
theorem stopRun_busy (rounds : ℕ) (hbusy : Busy dev s) :
    stopRun rounds info dev s = (some (-ebusy), wordTrace dev s ++ [.write csrExit regCsr]) := by
  have hword : (pendingWord dev (⟨(s, []), []⟩ : Proc (recorded M))).1 = -ebusy :=
    (erase_pendingWord dev s).1.trans hbusy
  unfold pendingWord at hword
  simp only [stopRun, svecFpgaWriteStop, hword]
  rfl

/-- Whatever else it returns, it has waited. -/
theorem not_busy_of_ret {rounds : ℕ} {r : Int} (hret : (stopRun rounds info dev s).1 = some r)
    (hne : r ≠ -ebusy) : ¬ Busy dev s := by
  intro hbusy
  rw [stopRun_busy info dev s rounds hbusy] at hret
  exact hne (Option.some.inj hret).symm

/-- The accesses up to the wait. -/
def startTrace : List (Access M) := wordTrace dev s ++ [.look (afterWord dev s).1]

/-- Otherwise it waits; when the wait has ended, it gives its verdict and writes EXIT. -/
theorem stopRun_waits (rounds : ℕ) (hbusy : ¬ Busy dev s) :
    ∃ w tr, Outcome (waitStart dev s) (deadline info dev s) rounds w tr ∧
      stopRun rounds info dev s =
        if w.1 then (some (verdict w.2), startTrace dev s ++ tr ++ [.write csrExit regCsr])
        else (none, startTrace dev s ++ tr) := by
  obtain ⟨hvalue, hrest⟩ := erase_pendingWord dev s
  have hgo : ¬ ((pendingWord dev (⟨(s, []), []⟩ : Proc (recorded M))).1 ≠ 0 ∧
      (pendingWord dev (⟨(s, []), []⟩ : Proc (recorded M))).1 ≠ -einval) := by
    rw [hvalue]
    rintro ⟨h0, h1⟩
    rcases pendingWord_value dev (⟨s, []⟩ : Proc M) with h | h | h
    · exact h0 h
    · exact h1 h
    · exact hbusy h
  obtain ⟨h, hh⟩ : ∃ h, h = (pendingWord dev (⟨(s, []), []⟩ : Proc (recorded M))).2.getJiffies64 := ⟨_, rfl⟩
  have hclock : h.1 = (afterWord dev s).1 := by
    rw [hh, getJiffies64_value, hrest]
    rfl
  have hst : h.2.st = (waitStart dev s, startTrace dev s) := by
    have herase : (erase h.2).st = waitStart dev s := by
      rw [hh, erase_getJiffies64, hrest]
      rfl
    refine Prod.ext herase ?_
    rw [startTrace, ← hclock, hh]
    rfl
  obtain ⟨tr, hout, htr⟩ := waitDone_outcome (waitStart dev s) (deadline info dev s) rounds hst
  refine ⟨_, tr, hout, ?_⟩
  have hdl : h.1 + configTimeout (recorded M) info = deadline info dev s := by
    rw [hclock]
    rfl
  have hrun : svecFpgaWriteStop rounds info dev (⟨(s, []), []⟩ : Proc (recorded M)) =
      if !(waitDone h.2 (h.1 + configTimeout (recorded M) info) 0#32 rounds).1.1 then
        (none, .cleared, (waitDone h.2 (h.1 + configTimeout (recorded M) info) 0#32 rounds).2)
      else
        (some (verdict (waitDone h.2 (h.1 + configTimeout (recorded M) info) 0#32 rounds).1.2), .cleared,
          ((waitDone h.2 (h.1 + configTimeout (recorded M) info) 0#32 rounds).2.write csrExit
            regCsr).usleepRange 10000 20000) := by
    rw [hh]
    exact if_neg hgo
  rw [hdl] at hrun
  unfold stopRun
  rw [hrun]
  cases (waitDone h.2 (deadline info dev s) 0#32 rounds).1.1 with
  | true => exact Prod.ext rfl (congrArg (· ++ [Access.write csrExit regCsr]) htr)
  | false => exact Prod.ext rfl htr

end Stop

/-! ## Timeouts that are none -/

/-- What is asked of a call: a timeout is reported only on a read of CSR from the deadline on
that found DONE away; success only on a last read with DONE and without ERROR; and EXIT is
written once, as the last access, where CSR was not written before. -/
structure Honest (atRead : M.State → BitVec 64) (timeout : BitVec 64)
    (run : Option Int × List (Access M)) : Prop where
  timely : run.1 = some (-eio) → ∃ before value, .read before regCsr value ∈ run.2 ∧
    timeBefore64 (atRead before) timeout = false ∧ value.getLsbD csrDoneBit = false
  success : run.1 = some 0 → ∃ value, lastCsr run.2 = some value ∧
    value.getLsbD csrDoneBit = true ∧ value.getLsbD csrErrorBit = false
  exits : ∀ r, run.1 = some r → ∃ l, run.2 = l ++ [.write csrExit regCsr] ∧ ∀ v, .write v regCsr ∉ l

/-- A round of the wait finds the deadline passed, when all reads so far were made before it
and the last of them, if any, showed no ERROR. -/
structure Missed (atRead : M.State → BitVec 64) (timeout : BitVec 64) (s : M.State) (k : ℕ) : Prop where
  waiting : ∀ i < k, Open s timeout i
  passed : timeBefore64 (jiffiesAt s k) timeout = false
  reads : ∀ i < k, timeBefore64 (atRead (readFrom s i)) timeout = true
  good : (statusBefore s k).getLsbD csrErrorBit = false

theorem verdict_eq_eio {status : Word} : verdict status = -eio ↔
    status.getLsbD csrErrorBit = false ∧ status.getLsbD csrDoneBit = false := by
  unfold verdict
  cases status.getLsbD csrErrorBit <;> cases status.getLsbD csrDoneBit <;> decide

theorem verdict_eq_zero {status : Word} : verdict status = 0 ↔
    status.getLsbD csrErrorBit = false ∧ status.getLsbD csrDoneBit = true := by
  unfold verdict
  cases status.getLsbD csrErrorBit <;> cases status.getLsbD csrDoneBit <;> decide

section Wait

variable {s : M.State} {timeout : BitVec 64} {rounds : ℕ} {w : Bool × Word} {tr : List (Access M)}

/-- DONE is not in a status with which the next round begins. -/
theorem statusBefore_undone {k : ℕ} (hopen : ∀ i < k, Open s timeout i) :
    (statusBefore s k).getLsbD csrDoneBit = false := by
  cases k with
  | zero =>
    show (0#32).getLsbD csrDoneBit = false
    decide
  | succ k => exact (hopen k (Nat.lt_succ_self k)).undone

/-- The round in which the deadline is found passed ends the wait. -/
theorem Outcome.of_missed {k : ℕ} (h : Outcome s timeout (k + 1) w tr) (hopen : ∀ i < k, Open s timeout i)
    (hlate : timeBefore64 (jiffiesAt s k) timeout = false) :
    w = (true, statusBefore s k) ∧ tr = openTrace s k ++ [.look (jiffiesAt s k)] := by
  have hclosed : ¬ Open s timeout k := fun ho => by
    rw [ho.early] at hlate
    exact absurd hlate (by decide)
  cases h with
  | @late k' hlt _ hlate' =>
    rcases Nat.lt_or_eq_of_le (Nat.le_of_lt_succ hlt) with hlt' | rfl
    · rw [(hopen k' hlt').early] at hlate'
      exact absurd hlate' (by decide)
    · exact ⟨rfl, rfl⟩
  | @done k' hlt _ hearly hdone =>
    rcases Nat.lt_or_eq_of_le (Nat.le_of_lt_succ hlt) with hlt' | rfl
    · rw [(hopen k' hlt').undone] at hdone
      exact absurd hdone (by decide)
    · rw [hearly] at hlate
      exact absurd hlate (by decide)
  | going hopen' => exact absurd (hopen' k (Nat.lt_succ_self k)) hclosed

end Wait

section Stop

variable (info : FpgaImageInfo) (dev : SvecDev) (s : M.State)

theorem startTrace_not_read (before : M.State) (v : Word) : .read before regCsr v ∉ startTrace dev s :=
  ((elsewhere_wordTrace dev s).append_one rfl).not_read

/-- EXIT is written once, at the end. -/
theorem stopRun_exits (rounds : ℕ) (r : Int) (hret : (stopRun rounds info dev s).1 = some r) :
    ∃ l, (stopRun rounds info dev s).2 = l ++ [.write csrExit regCsr] ∧ ∀ v, .write v regCsr ∉ l := by
  by_cases hbusy : Busy dev s
  · rw [stopRun_busy info dev s rounds hbusy]
    exact ⟨wordTrace dev s, rfl, fun v => (elsewhere_wordTrace dev s).not_write⟩
  · obtain ⟨w, tr, hout, hrun⟩ := stopRun_waits info dev s rounds hbusy
    rw [hrun] at hret ⊢
    cases hw : w.1 with
    | false =>
      rw [hw] at hret
      exact nomatch hret
    | true =>
      refine ⟨startTrace dev s ++ tr, rfl, fun v hmem => ?_⟩
      rcases List.mem_append.mp hmem with hstart | hwait
      · exact ((elsewhere_wordTrace dev s).append_one rfl).not_write hstart
      · exact hout.no_write _ v regCsr hwait

/-- Success rests on the last read. -/
theorem stopRun_success (rounds : ℕ) (hret : (stopRun rounds info dev s).1 = some 0) :
    ∃ value, lastCsr (stopRun rounds info dev s).2 = some value ∧
      value.getLsbD csrDoneBit = true ∧ value.getLsbD csrErrorBit = false := by
  have hbusy : ¬ Busy dev s := not_busy_of_ret info dev s hret (by decide)
  obtain ⟨w, tr, hout, hrun⟩ := stopRun_waits info dev s rounds hbusy
  rw [hrun] at hret ⊢
  cases hout with
  | late _ hopen _ =>
    obtain ⟨-, hone⟩ := verdict_eq_zero.mp (Option.some.inj hret)
    rw [statusBefore_undone hopen] at hone
    exact absurd hone (by decide)
  | going => exact nomatch hret
  | @done k _ _ _ hdone =>
    obtain ⟨hgood, -⟩ := verdict_eq_zero.mp (Option.some.inj hret)
    refine ⟨csrAt (waitStart dev s) k, ?_, hdone, hgood⟩
    rw [if_pos rfl, lastCsr_write, openTrace_succ, ← List.append_assoc]
    exact lastCsr_round (waitStart dev s) k (startTrace dev s ++ openTrace (waitStart dev s) k)

/-- A call reports a timeout that was none exactly if it misses the deadline. -/
theorem stopRun_timely_iff (atRead : M.State → BitVec 64) :
    (∀ rounds, (stopRun rounds info dev s).1 = some (-eio) →
        ∃ before value, .read before regCsr value ∈ (stopRun rounds info dev s).2 ∧
          timeBefore64 (atRead before) (deadline info dev s) = false ∧ value.getLsbD csrDoneBit = false) ↔
      (¬ Busy dev s → ∀ k, ¬ Missed atRead (deadline info dev s) (waitStart dev s) k) := by
  constructor
  · intro htimely hbusy k hmissed
    obtain ⟨w, tr, hout, hrun⟩ := stopRun_waits info dev s (k + 1) hbusy
    obtain ⟨rfl, rfl⟩ := hout.of_missed hmissed.waiting hmissed.passed
    have hret : (stopRun (k + 1) info dev s).1 = some (-eio) := by
      rw [hrun]
      exact congrArg some (verdict_eq_eio.mpr ⟨hmissed.good, statusBefore_undone hmissed.waiting⟩)
    obtain ⟨before, value, hmem, hlate, -⟩ := htimely (k + 1) hret
    rw [hrun] at hmem
    have hwait : .read before regCsr value ∈ openTrace (waitStart dev s) k := by
      simpa [startTrace_not_read] using hmem
    obtain ⟨i, hi, rfl, -⟩ := mem_openTrace _ hwait
    rw [hmissed.reads i hi] at hlate
    exact absurd hlate (by decide)
  · intro hnone rounds hret
    have hbusy : ¬ Busy dev s := not_busy_of_ret info dev s hret (by decide)
    obtain ⟨w, tr, hout, hrun⟩ := stopRun_waits info dev s rounds hbusy
    rw [hrun] at hret ⊢
    cases hout with
    | going => exact nomatch hret
    | done _ _ _ hdone =>
      obtain ⟨-, hundone⟩ := verdict_eq_eio.mp (Option.some.inj hret)
      rw [hdone] at hundone
      exact absurd hundone (by decide)
    | @late k hlt hopen hlate =>
      obtain ⟨hgood, -⟩ := verdict_eq_eio.mp (Option.some.inj hret)
      by_contra hno
      refine hnone hbusy k ⟨hopen, hlate, fun i hi => ?_, hgood⟩
      by_contra hread
      refine hno ⟨readFrom (waitStart dev s) i, csrAt (waitStart dev s) i, ?_,
        Bool.eq_false_iff.mpr hread, (hopen i hi).undone⟩
      have hmem := read_mem_openTrace (waitStart dev s) hi
      simp [hmem]

/-- A call returns exactly if the clock passes the deadline, or DONE comes. -/
theorem stopRun_returns_iff :
    (∃ enough, ∀ rounds, enough ≤ rounds → ∃ r, (stopRun rounds info dev s).1 = some r) ↔
      (¬ Busy dev s → ∃ k, timeBefore64 (jiffiesAt (waitStart dev s) k) (deadline info dev s) = false ∨
        (csrAt (waitStart dev s) k).getLsbD csrDoneBit = true) := by
  constructor
  · rintro ⟨enough, hreturns⟩ hbusy
    obtain ⟨r, hret⟩ := hreturns enough (Nat.le_refl enough)
    obtain ⟨w, tr, hout, hrun⟩ := stopRun_waits info dev s enough hbusy
    rw [hrun] at hret
    cases hout with
    | going => exact nomatch hret
    | @late k _ _ hlate => exact ⟨k, .inl hlate⟩
    | @done k _ _ _ hdone => exact ⟨k, .inr hdone⟩
  · intro hends
    by_cases hbusy : Busy dev s
    · exact ⟨0, fun rounds _ => ⟨_, congrArg Prod.fst (stopRun_busy info dev s rounds hbusy)⟩⟩
    obtain ⟨k, hk⟩ := hends hbusy
    refine ⟨k + 1, fun rounds hle => ?_⟩
    obtain ⟨w, tr, hout, hrun⟩ := stopRun_waits info dev s rounds hbusy
    cases hout with
    | late => exact ⟨_, congrArg Prod.fst hrun⟩
    | done => exact ⟨_, congrArg Prod.fst hrun⟩
    | going hopen =>
      obtain ⟨hearly, hundone⟩ := hopen k hle
      rw [hearly, hundone] at hk
      simp at hk

/-- Every call is honest and returns exactly if, unless the FIFO stays full, no look misses
the deadline, and the deadline passes or DONE comes. -/
theorem honest_iff (M : Machine) (atRead : M.State → BitVec 64) (info : FpgaImageInfo) (dev : SvecDev)
    (s : M.State) :
    ((∀ rounds, Honest atRead (deadline info dev s) (stopRun rounds info dev s)) ∧
        ∃ enough, ∀ rounds, enough ≤ rounds → ∃ r, (stopRun rounds info dev s).1 = some r) ↔
      (¬ Busy dev s → (∀ k, ¬ Missed atRead (deadline info dev s) (waitStart dev s) k) ∧
        ∃ k, timeBefore64 (jiffiesAt (waitStart dev s) k) (deadline info dev s) = false ∨
          (csrAt (waitStart dev s) k).getLsbD csrDoneBit = true) := by
  rw [stopRun_returns_iff, imp_and, ← stopRun_timely_iff]
  refine and_congr_left fun _ => ⟨fun h rounds => (h rounds).timely, fun h rounds => ?_⟩
  exact ⟨h rounds, stopRun_success info dev s rounds, stopRun_exits info dev s rounds⟩

end Stop

/-! ## The default timeout -/

/-- The clock of a machine never goes back, and a read of CSR is made within its call. -/
structure MonotoneClock (M : Machine) (atRead : M.State → BitVec 64) where
  now : M.State → BitVec 64
  read : ∀ s a, now s ≤ atRead s ∧ atRead s ≤ now (M.busRead s a).2
  write : ∀ s v a, now s ≤ now (M.busWrite s v a)
  delay : ∀ s ms, now s ≤ now (M.mdelay s ms)
  sleep : ∀ s lo hi, now s ≤ now (M.usleepRange s lo hi)
  look : ∀ s, now s ≤ (M.getJiffies64 s).1 ∧ (M.getJiffies64 s).1 ≤ now (M.getJiffies64 s).2

/-- The clock before and after the first sleep, with a tick a millisecond. -/
def tick (slept : Bool) : BitVec 64 := if slept then 1#64 else 0#64

/-- A card whose loader needs a few microseconds more for the last word: it is done when the
driver wakes up. -/
def slowLoader : Machine where
  State := Bool
  busRead slept a := (if a = regCsr ∧ slept then 0x2#32 else 0#32, slept)
  busWrite slept _ _ := slept
  mdelay slept _ := slept
  usleepRange _ _ _ := true
  getJiffies64 slept := (tick slept, slept)
  usecsToJiffies us := BitVec.ofNat 64 ((us.toNat + 999) / 1000)

def slowLoader_clock : MonotoneClock slowLoader tick where
  now := tick
  read _ _ := ⟨BitVec.le_refl _, BitVec.le_refl _⟩
  write _ _ _ := BitVec.le_refl _
  delay _ _ := BitVec.le_refl _
  sleep slept _ _ := by
    show tick slept ≤ tick true
    cases slept <;> decide
  look _ := ⟨BitVec.le_refl _, BitVec.le_refl _⟩

/-- With the default timeout the driver sleeps through the deadline after its first look, and
reports a timeout of a loader that is done. -/
theorem slept_through_deadline :
    ¬ ∀ (M : Machine) (atRead : M.State → BitVec 64) (_ : MonotoneClock M atRead) (info : FpgaImageInfo)
      (dev : SvecDev) (s : M.State) (rounds : ℕ),
        Honest atRead (deadline info dev s) (stopRun rounds info dev s) := by
  intro hall
  have hbusy : ¬ Busy (M := slowLoader) .cleared false := by
    unfold Busy
    decide
  have htimely := (stopRun_timely_iff (M := slowLoader) ⟨0#32⟩ .cleared false tick).mp
    fun rounds => (hall slowLoader tick slowLoader_clock ⟨0#32⟩ .cleared false rounds).timely
  refine htimely hbusy 1 ⟨fun i hi => ?_, by decide, fun i hi => ?_, by decide⟩
  · obtain rfl : i = 0 := by omega
    exact ⟨by decide, by decide⟩
  · obtain rfl : i = 0 := by omega
    decide

end Svec.Host.WriteStop
