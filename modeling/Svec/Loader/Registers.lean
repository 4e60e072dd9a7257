/-
  Loader/Registers.lean --- what a bus access does to the register block.

  The block keeps an access open in a shift register, holds its write pulses until
  the acknowledge, and makes pulses of the CSR bits with two flip-flops each.  The
  ledger below says the same in terms of the access under way and its age: it is
  acknowledged at the age of three cycles if it goes to CSR and of one cycle
  otherwise, an entry is pushed at the age of one, and a bit of CSR is a pulse at
  the age of two.
-/
import Svec.Hdl.XloaderWb
import Svec.Host.Bus

set_option autoImplicit false

namespace Svec.Loader.Registers

open Svec.Data Svec.Sync Svec.Hdl
open Svec.Hdl.XloaderWb (FifoFlags RegsIn)

/-! ## The ledger -/

/-- An access to a register. -/
structure Access where
  we : Bool
  reg : BitVec 3
  dat : Word
  deriving DecidableEq, Repr

/-- How many cycles after its first one an access is acknowledged. -/
def Access.latency (a : Access) : ℕ := if a.reg = 0#3 then 3 else 1

/-- What the access writes to a register. -/
def Access.wrote (a : Access) (reg : BitVec 3) : Option Word :=
  if a.we ∧ a.reg = reg then some a.dat else none

/-- The access under way with its age, and the fields that keep what was written. -/
structure Ledger where
  open_ : Option (Access × ℕ)
  csrMsbf : Bool
  csrClkdiv : BitVec 6
  xsize : BitVec 2
  xlast : Bool
  deriving DecidableEq, Repr

/-- The access that begins with a strobe. -/
def access (wb : WbMasterOut) : Access := ⟨wb.we, wb.adr.extractLsb' 0 3, wb.dat⟩

/-- The access that begins in a cycle. -/
def Ledger.begins (l : Ledger) (wb : WbMasterOut) : Option Access :=
  if l.open_.isNone && wb.cyc && wb.stb then some (access wb) else none

/-- The fields after an access has begun. -/
def Ledger.record (l : Ledger) (a : Access) : Ledger where
  open_ := some (a, 1)
  csrMsbf := ((a.wrote 0#3).map fun w => w.getLsbD 4).getD l.csrMsbf
  csrClkdiv := ((a.wrote 0#3).map fun w => w.extractLsb' 8 6).getD l.csrClkdiv
  xsize := ((a.wrote 4#3).map fun w => w.extractLsb' 0 2).getD l.xsize
  xlast := ((a.wrote 4#3).map fun w => w.getLsbD 2).getD l.xlast

/-- One cycle. -/
def Ledger.step (l : Ledger) (wb : WbMasterOut) : Ledger :=
  match l.open_ with
  | some (a, n) => { l with open_ := if n = a.latency then none else some (a, n + 1) }
  | none => if wb.cyc && wb.stb then l.record (access wb) else l

/-- What was written to a register by the access under way, at the given age. -/
def Ledger.wroteAt (l : Ledger) (age : ℕ) (reg : BitVec 3) : Option Word :=
  match l.open_ with
  | some (a, n) => if n = age then a.wrote reg else none
  | none => none

/-- A bit of CSR is a pulse. -/
def Ledger.pulse (l : Ledger) (b : ℕ) : Bool := (l.wroteAt 2 0#3).any fun w => w.getLsbD b

/-- The entry that is pushed. -/
def Ledger.push (l : Ledger) : Option FifoEntry :=
  (l.wroteAt 1 5#3).map fun w => ⟨l.xsize, l.xlast, w⟩

/-- CLEAR_BUS. -/
def Ledger.clear (l : Ledger) : Bool := (l.wroteAt 1 6#3).any fun w => w.getLsbD 18

/-- The access under way is acknowledged. -/
def Ledger.ack (l : Ledger) : Bool := l.open_.any fun p => p.2 = p.1.latency

/-! ## The register block keeps the ledger -/

/-- The shift register while an access is open. -/
def ackSregAt (a : Access) (n : ℕ) : BitVec 10 := 1#10 <<< (a.latency - n)

/-- A bit of CSR that an access sets until its acknowledge. -/
def Access.csrBit (a : Access) (b : ℕ) : Bool := (a.wrote 0#3).any fun w => w.getLsbD b

/-- How the registers of the block stand while an access of age `n` is open. -/
structure Open (w : XloaderWb.Regs) (a : Access) (n : ℕ) : Prop where
  age : 1 ≤ n ∧ n ≤ a.latency
  ackInProgress : w.ackInProgress = true
  ackSreg : w.ackSreg = ackSregAt a n
  csrStartInt : w.csrStartInt = a.csrBit 0
  csrSwrstInt : w.csrSwrstInt = a.csrBit 5
  csrExitInt : w.csrExitInt = a.csrBit 6
  csrStartDly0 : w.csrStartDly0 = (a.csrBit 0 && decide (2 ≤ n))
  csrSwrstDly0 : w.csrSwrstDly0 = (a.csrBit 5 && decide (2 ≤ n))
  csrExitDly0 : w.csrExitDly0 = (a.csrBit 6 && decide (2 ≤ n))
  csrStart : w.csrStart = (a.csrBit 0 && decide (n = 2))
  csrSwrst : w.csrSwrst = (a.csrBit 5 && decide (n = 2))
  csrExit : w.csrExit = (a.csrBit 6 && decide (n = 2))
  fifoWrreqInt : w.fifoWrreqInt = (a.wrote 5#3).isSome
  xdata : ∀ d, a.wrote 5#3 = some d → w.fifoInInt.xdata = d
  fifoClearBusInt : w.fifoClearBusInt = (a.wrote 6#3).any fun d => d.getLsbD 18

/-- How they stand while no access is open. -/
structure Closed (w : XloaderWb.Regs) : Prop where
  ackInProgress : w.ackInProgress = false
  ackSreg : w.ackSreg = 0#10
  csrStartInt : w.csrStartInt = false
  csrSwrstInt : w.csrSwrstInt = false
  csrExitInt : w.csrExitInt = false
  csrStart : w.csrStart = false
  csrSwrst : w.csrSwrst = false
  csrExit : w.csrExit = false
  fifoWrreqInt : w.fifoWrreqInt = false
  fifoClearBusInt : w.fifoClearBusInt = false

/-- The block is in the state that the ledger says. -/
structure Keeps (w : XloaderWb.Regs) (l : Ledger) : Prop where
  csrMsbf : w.csrMsbfInt = l.csrMsbf
  csrClkdiv : w.csrClkdivInt = l.csrClkdiv
  xsize : w.fifoInInt.xsize = l.xsize
  xlast : w.fifoInInt.xlast = l.xlast
  shut : l.open_ = none → Closed w
  opened : ∀ a n, l.open_ = some (a, n) → Open w a n

theorem reg_cases : ∀ reg : BitVec 3, reg = 0#3 ∨ reg = 1#3 ∨ reg = 2#3 ∨ reg = 3#3 ∨ reg = 4#3 ∨
    reg = 5#3 ∨ reg = 6#3 ∨ reg = 7#3 := by
  decide

section Step

variable {w : XloaderWb.Regs} {l : Ledger} {wb : WbMasterOut} {f : FifoFlags} {regsI : RegsIn}

/-- The age of an access grows until its acknowledge. -/
theorem open_step {a : Access} {n : ℕ} (h : Open w a n) (hn : n ≠ a.latency) :
    Open (XloaderWb.step w true wb f regsI) a (n + 1) := by
  have hcsr : a.reg = 0#3 ∧ a.latency = 3 ∧ (n = 1 ∨ n = 2) := by
    have hage := h.age
    unfold Access.latency at hage hn ⊢
    split
    · exact ⟨‹_›, rfl, by rw [if_pos ‹_›] at hage hn; omega⟩
    · rw [if_neg ‹_›] at hage hn
      omega
  obtain ⟨hreg, hlat, hn12⟩ := hcsr
  have hbit : w.ackSreg.getLsbD 0 = false := by
    rw [h.ackSreg, ackSregAt, hlat]
    rcases hn12 with rfl | rfl <;> decide
  have hstep : XloaderWb.step w true wb f regsI =
      { w with
        ackSreg := w.ackSreg >>> 1, btrigrWr := false, farDataLoad := false
        csrStartDly0 := w.csrStartInt, csrStart := w.csrStartInt && !w.csrStartDly0
        csrSwrstDly0 := w.csrSwrstInt, csrSwrst := w.csrSwrstInt && !w.csrSwrstDly0
        csrExitDly0 := w.csrExitInt, csrExit := w.csrExitInt && !w.csrExitDly0 } := by
    unfold XloaderWb.step XloaderWb.pRegisterBank XloaderWb.pMonostable
    simp only [Bool.not_true, Bool.false_eq_true, if_false, h.ackInProgress, if_true, hbit]
  rw [hstep]
  have h2 : decide (2 ≤ n + 1) = true := decide_eq_true (by omega)
  have hpulse : ∀ b : Bool, (b && !(b && decide (2 ≤ n))) = (b && decide (n + 1 = 2)) := by
    intro b
    rcases hn12 with rfl | rfl <;> cases b <;> decide
  refine ⟨by omega, h.ackInProgress, ?_, h.csrStartInt, h.csrSwrstInt, h.csrExitInt, ?_, ?_, ?_, ?_, ?_, ?_,
    h.fifoWrreqInt, h.xdata, h.fifoClearBusInt⟩
  · show w.ackSreg >>> 1 = _
    rw [h.ackSreg, ackSregAt, ackSregAt, hlat]
    rcases hn12 with rfl | rfl <;> decide
  · simp only [h.csrStartInt, h2, Bool.and_true]
  · simp only [h.csrSwrstInt, h2, Bool.and_true]
  · simp only [h.csrExitInt, h2, Bool.and_true]
  · simp only [h.csrStartInt, h.csrStartDly0, hpulse]
  · simp only [h.csrSwrstInt, h.csrSwrstDly0, hpulse]
  · simp only [h.csrExitInt, h.csrExitDly0, hpulse]

/-- The acknowledge closes an access. -/
theorem open_ack {a : Access} {n : ℕ} (h : Open w a n) (hn : n = a.latency) :
    Closed (XloaderWb.step w true wb f regsI) := by
  have hs : w.ackSreg = 1#10 := by
    rw [h.ackSreg, ackSregAt, hn, Nat.sub_self]
    rfl
  have hbit : w.ackSreg.getLsbD 0 = true := by rw [hs]; rfl
  have hpulse : ∀ b, (a.csrBit b && !(a.csrBit b && decide (2 ≤ n))) = false := by
    intro b
    by_cases hreg : a.reg = 0#3
    · have h2 : decide (2 ≤ n) = true := by
        rw [hn, Access.latency, if_pos hreg]
        rfl
      rw [h2]
      cases a.csrBit b <;> rfl
    · have hno : a.csrBit b = false := by
        rw [Access.csrBit, Access.wrote, if_neg fun hw => hreg hw.2]
        rfl
      rw [hno]
      rfl
  unfold XloaderWb.step XloaderWb.pRegisterBank XloaderWb.pMonostable
  simp only [Bool.not_true, Bool.false_eq_true, if_false, h.ackInProgress, if_true, hbit]
  constructor <;> simp only [h.csrStartInt, h.csrSwrstInt, h.csrExitInt, h.csrStartDly0, h.csrSwrstDly0,
    h.csrExitDly0, hpulse]
  rw [hs]
  decide

/-- A strobe opens an access. -/
theorem open_begin (h : Closed w) (hstrobe : (wb.cyc && wb.stb) = true) :
    Open (XloaderWb.step w true wb f regsI) (access wb) 1 := by
  have hlat : 1 ≤ (access wb).latency := by
    unfold Access.latency
    split <;> decide
  have hstep : XloaderWb.step w true wb f regsI =
      { (if wb.we then
            XloaderWb.writeReg { w with ackSreg := w.ackSreg >>> 1 } (wb.adr.extractLsb' 0 3) wb.dat
          else { w with ackSreg := w.ackSreg >>> 1 }) with
        rddataReg := XloaderWb.readData w f regsI (wb.adr.extractLsb' 0 3)
        ackSreg := w.ackSreg >>> 1 ||| XloaderWb.ackSet (wb.adr.extractLsb' 0 3), ackInProgress := true
        csrStartDly0 := false, csrStart := false, csrSwrstDly0 := false, csrSwrst := false
        csrExitDly0 := false, csrExit := false } := by
    unfold XloaderWb.step XloaderWb.pRegisterBank XloaderWb.pMonostable
    simp only [Bool.not_true, Bool.false_eq_true, if_false, h.ackInProgress, hstrobe, if_true,
      h.csrStartInt, h.csrSwrstInt, h.csrExitInt, Bool.false_and]
  have hack : (0#10 >>> 1 ||| XloaderWb.ackSet (wb.adr.extractLsb' 0 3)) = ackSregAt (access wb) 1 := by
    unfold ackSregAt Access.latency access XloaderWb.ackSet
    by_cases h0 : wb.adr.extractLsb' 0 3 = 0#3 <;> simp [h0]
  have hone : decide ((1 : ℕ) = 2) = false := rfl
  have htwo : decide (2 ≤ 1) = false := rfl
  rw [hstep, h.ackSreg]
  generalize hreg : wb.adr.extractLsb' 0 3 = reg at hack
  cases hwe : wb.we with
  | false =>
    have hread : ∀ k, (access wb).wrote k = none := fun k =>
      if_neg fun hw => Bool.false_ne_true (hwe.symm.trans hw.1)
    have hbit : ∀ b, (access wb).csrBit b = false := fun b => by rw [Access.csrBit, hread]; rfl
    refine ⟨⟨Nat.le_refl 1, hlat⟩, rfl, hack, ?_, ?_, ?_, ?_, ?_, ?_, ?_, ?_, ?_, ?_, ?_, ?_⟩ <;>
      simp [hread, hbit, h.csrStartInt, h.csrSwrstInt, h.csrExitInt, h.fifoWrreqInt, h.fifoClearBusInt]
  | true =>
    have hwrote : ∀ k, (access wb).wrote k = if reg = k then some wb.dat else none := by
      intro k
      simp [Access.wrote, access, hwe, hreg]
    have hbit : ∀ b, (access wb).csrBit b = (decide (reg = 0#3) && wb.dat.getLsbD b) := by
      intro b
      rw [Access.csrBit, hwrote]
      by_cases h0 : reg = 0#3 <;> simp [h0]
    refine ⟨⟨Nat.le_refl 1, hlat⟩, rfl, hack, ?_, ?_, ?_, ?_, ?_, ?_, ?_, ?_, ?_, ?_, ?_, ?_⟩ <;>
      simp only [hbit, hone, htwo, Bool.and_false, if_true, hwrote]
    all_goals
      rcases reg_cases reg with rfl | rfl | rfl | rfl | rfl | rfl | rfl | rfl <;>
        by_cases hclear : wb.dat[18] = true <;>
        simp [XloaderWb.writeReg, h.csrStartInt, h.csrSwrstInt, h.csrExitInt, h.fifoWrreqInt,
          h.fifoClearBusInt, hclear]

/-- Nothing happens on a silent bus. -/
theorem closed_silent (h : Closed w) (hsilent : (wb.cyc && wb.stb) = false) :
    Closed (XloaderWb.step w true wb f regsI) := by
  unfold XloaderWb.step XloaderWb.pRegisterBank XloaderWb.pMonostable
  simp only [Bool.not_true, Bool.false_eq_true, if_false, h.ackInProgress, hsilent, h.csrStartInt,
    h.csrSwrstInt, h.csrExitInt, Bool.false_and]
  exact ⟨rfl, by rw [h.ackSreg]; rfl, rfl, rfl, rfl, rfl, rfl, rfl, h.fifoWrreqInt, h.fifoClearBusInt⟩

/-- The fields that keep what was written change with a write only. -/
theorem fields_step (h : w.ackInProgress = true ∨ (wb.cyc && wb.stb) = false) :
    (XloaderWb.step w true wb f regsI).csrMsbfInt = w.csrMsbfInt ∧
      (XloaderWb.step w true wb f regsI).csrClkdivInt = w.csrClkdivInt ∧
      (XloaderWb.step w true wb f regsI).fifoInInt = w.fifoInInt := by
  unfold XloaderWb.step XloaderWb.pRegisterBank
  simp only [Bool.not_true, Bool.false_eq_true, if_false]
  cases hopen : w.ackInProgress with
  | true =>
    simp only [if_true]
    split <;> exact ⟨rfl, rfl, rfl⟩
  | false =>
    have hsilent := h.resolve_left fun ht => Bool.false_ne_true (hopen.symm.trans ht)
    simp [hsilent]

theorem fields_begin (hopen : w.ackInProgress = false) (hstrobe : (wb.cyc && wb.stb) = true) :
    (XloaderWb.step w true wb f regsI).csrMsbfInt =
        (((access wb).wrote 0#3).map fun d => d.getLsbD 4).getD w.csrMsbfInt ∧
      (XloaderWb.step w true wb f regsI).csrClkdivInt =
        (((access wb).wrote 0#3).map fun d => d.extractLsb' 8 6).getD w.csrClkdivInt ∧
      (XloaderWb.step w true wb f regsI).fifoInInt.xsize =
        (((access wb).wrote 4#3).map fun d => d.extractLsb' 0 2).getD w.fifoInInt.xsize ∧
      (XloaderWb.step w true wb f regsI).fifoInInt.xlast =
        (((access wb).wrote 4#3).map fun d => d.getLsbD 2).getD w.fifoInInt.xlast := by
  unfold XloaderWb.step XloaderWb.pRegisterBank
  simp only [Bool.not_true, Bool.false_eq_true, if_false, hopen, hstrobe, if_true]
  unfold Access.wrote access
  generalize wb.adr.extractLsb' 0 3 = reg
  cases wb.we with
  | false => simp
  | true =>
    rcases reg_cases reg with rfl | rfl | rfl | rfl | rfl | rfl | rfl | rfl <;>
      by_cases hclear : wb.dat[18] = true <;>
      simp [XloaderWb.writeReg, hclear]

/-- One cycle of the block is one cycle of the ledger. -/
theorem keeps_step (h : Keeps w l) : Keeps (XloaderWb.step w true wb f regsI) (l.step wb) := by
  unfold Ledger.step
  cases hopen : l.open_ with
  | some p =>
    obtain ⟨a, n⟩ := p
    have ho := h.opened a n hopen
    obtain ⟨hm, hc, hf⟩ := @fields_step w wb f regsI (.inl ho.ackInProgress)
    refine ⟨hm.trans h.csrMsbf, hc.trans h.csrClkdiv, (congrArg FifoEntry.xsize hf).trans h.xsize,
      (congrArg FifoEntry.xlast hf).trans h.xlast, fun hnone => ?_, fun a' n' hsome => ?_⟩
    · refine open_ack ho ?_
      by_contra hne
      simp only [if_neg hne] at hnone
      exact absurd hnone (by simp)
    · by_cases hn : n = a.latency
      · simp only [if_pos hn] at hsome
        exact absurd hsome (by simp)
      · simp only [if_neg hn, Option.some.injEq, Prod.mk.injEq] at hsome
        obtain ⟨rfl, rfl⟩ := hsome
        exact open_step ho hn
  | none =>
    have hc := h.shut hopen
    cases hstrobe : wb.cyc && wb.stb with
    | false =>
      obtain ⟨hm, hd, hf⟩ := @fields_step w wb f regsI (.inr hstrobe)
      refine ⟨hm.trans h.csrMsbf, hd.trans h.csrClkdiv, (congrArg FifoEntry.xsize hf).trans h.xsize,
        (congrArg FifoEntry.xlast hf).trans h.xlast, fun _ => closed_silent hc hstrobe, fun a n hsome => ?_⟩
      simp only [Bool.false_eq_true, if_false, hopen] at hsome
      exact absurd hsome (by simp)
    | true =>
      obtain ⟨hm, hd, hs, hx⟩ := @fields_begin w wb f regsI hc.ackInProgress hstrobe
      simp only [if_true]
      refine ⟨?_, ?_, ?_, ?_, fun hnone => absurd hnone (by simp [Ledger.record]), fun a n hsome => ?_⟩
      · rw [hm, h.csrMsbf]; rfl
      · rw [hd, h.csrClkdiv]; rfl
      · rw [hs, h.xsize]; rfl
      · rw [hx, h.xlast]; rfl
      · simp only [Ledger.record, Option.some.injEq, Prod.mk.injEq] at hsome
        obtain ⟨rfl, rfl⟩ := hsome
        exact open_begin hc hstrobe

end Step

/-! ## What the rest of the core sees -/

section Outputs

variable {w : XloaderWb.Regs} {l : Ledger}

theorem Keeps.pulses (h : Keeps w l) : w.csrStart = l.pulse 0 ∧ w.csrSwrst = l.pulse 5 ∧
    w.csrExit = l.pulse 6 := by
  unfold Ledger.pulse Ledger.wroteAt
  cases hopen : l.open_ with
  | none =>
    have hc := h.shut hopen
    exact ⟨hc.csrStart, hc.csrSwrst, hc.csrExit⟩
  | some p =>
    obtain ⟨a, n⟩ := p
    have ho := h.opened a n hopen
    rw [ho.csrStart, ho.csrSwrst, ho.csrExit]
    unfold Access.csrBit
    by_cases hn : n = 2 <;> simp [hn]

theorem Keeps.push (h : Keeps w l) :
    (if w.fifoWrreqInt then some w.fifoInInt else none) = l.push := by
  unfold Ledger.push Ledger.wroteAt
  cases hopen : l.open_ with
  | none => simp [(h.shut hopen).fifoWrreqInt]
  | some p =>
    obtain ⟨a, n⟩ := p
    have ho := h.opened a n hopen
    rw [ho.fifoWrreqInt]
    cases hw : a.wrote 5#3 with
    | none =>
      simp only [Option.isSome_none, Bool.false_eq_true, if_false]
      split
      · rw [hw]
        rfl
      · rfl
    | some d =>
      have hreg : a.reg = 5#3 := by
        unfold Access.wrote at hw
        by_contra hne
        rw [if_neg fun hc => hne hc.2] at hw
        exact absurd hw (by simp)
      have hone : n = 1 := by
        have hage := ho.age
        rw [Access.latency, if_neg (by rw [hreg]; decide)] at hage
        omega
      simp only [Option.isSome_some, if_true, hone, hw, Option.map_some]
      rw [← h.xsize, ← h.xlast, ← ho.xdata d hw]

theorem Keeps.clear (h : Keeps w l) : w.fifoClearBusInt = l.clear := by
  unfold Ledger.clear Ledger.wroteAt
  cases hopen : l.open_ with
  | none => exact (h.shut hopen).fifoClearBusInt
  | some p =>
    obtain ⟨a, n⟩ := p
    have ho := h.opened a n hopen
    rw [ho.fifoClearBusInt]
    by_cases hn : n = 1
    · simp [hn]
    · -- An access as old as that goes to CSR.
      have hreg : a.reg = 0#3 := by
        have hage := ho.age
        unfold Access.latency at hage
        by_contra hne
        rw [if_neg hne] at hage
        omega
      have hno : a.wrote 6#3 = none := if_neg fun hw => absurd (hreg.symm.trans hw.2) (by decide)
      simp [hn, hno]

theorem Keeps.ack (h : Keeps w l) : XloaderWb.wbAck w = l.ack := by
  unfold XloaderWb.wbAck Ledger.ack
  cases hopen : l.open_ with
  | none =>
    rw [(h.shut hopen).ackSreg]
    rfl
  | some p =>
    obtain ⟨a, n⟩ := p
    have ho := h.opened a n hopen
    have hage := ho.age
    rw [ho.ackSreg, ackSregAt]
    show _ = decide (n = a.latency)
    unfold Access.latency at hage ⊢
    split at hage
    · obtain rfl | rfl | rfl : n = 1 ∨ n = 2 ∨ n = 3 := by omega
      all_goals simp [*]
    · obtain rfl : n = 1 := by omega
      simp [*]

theorem Keeps.begins (h : Keeps w l) : w.ackInProgress = l.open_.isSome := by
  cases hopen : l.open_ with
  | none => exact (h.shut hopen).ackInProgress
  | some p => exact (h.opened p.1 p.2 hopen).ackInProgress

end Outputs

/-! ## Runs of the ledger -/

/-- The ledger at every cycle. -/
def ledger (l₀ : Ledger) (wb : ℕ → WbMasterOut) : ℕ → Ledger := run Ledger.step l₀ wb

section Runs

variable {l₀ : Ledger} {wb : ℕ → WbMasterOut}

theorem ledger_succ (t : ℕ) : ledger l₀ wb (t + 1) = (ledger l₀ wb t).step (wb t) := rfl

theorem begins_iff {l : Ledger} {i : WbMasterOut} {a : Access} :
    l.begins i = some a ↔ l.open_ = none ∧ (i.cyc && i.stb) = true ∧ access i = a := by
  unfold Ledger.begins
  cases hopen : l.open_ with
  | some p => simp
  | none => cases hstrobe : i.cyc && i.stb <;> simp [hstrobe]

theorem open_of_begins {t : ℕ} {a : Access} (h : (ledger l₀ wb t).begins (wb t) = some a) :
    ledger l₀ wb (t + 1) = (ledger l₀ wb t).record a := by
  obtain ⟨hopen, hstrobe, rfl⟩ := begins_iff.mp h
  rw [ledger_succ, Ledger.step, hopen]
  exact if_pos hstrobe

/-- The access of age `n` is the one that began `n` cycles ago. -/
theorem open_iff (h₀ : l₀.open_ = none) {t n : ℕ} {a : Access} :
    (ledger l₀ wb t).open_ = some (a, n) ↔
      1 ≤ n ∧ n ≤ a.latency ∧ ∃ u, t = u + n ∧ (ledger l₀ wb u).begins (wb u) = some a := by
  have hlat : 1 ≤ a.latency := by
    unfold Access.latency
    split <;> decide
  induction t generalizing n with
  | zero =>
    constructor
    · intro h
      exact absurd (h₀.symm.trans h) (by simp)
    · rintro ⟨hn, -, u, hu, -⟩
      omega
  | succ t ih =>
    constructor
    · intro h
      rw [ledger_succ, Ledger.step] at h
      cases hopen : (ledger l₀ wb t).open_ with
      | some p =>
        obtain ⟨b, m⟩ := p
        simp only [hopen] at h
        by_cases hm : m = b.latency
        · simp only [if_pos hm] at h
          exact absurd h (by simp)
        · simp only [if_neg hm, Option.some.injEq, Prod.mk.injEq] at h
          obtain ⟨rfl, rfl⟩ := h
          obtain ⟨h1, hle, u, rfl, hu⟩ := ih.mp hopen
          exact ⟨by omega, by omega, u, by omega, hu⟩
      | none =>
        simp only [hopen] at h
        cases hstrobe : (wb t).cyc && (wb t).stb with
        | false =>
          simp only [hstrobe, Bool.false_eq_true, if_false] at h
          exact absurd (hopen.symm.trans h) (by simp)
        | true =>
          simp only [hstrobe, if_true, Ledger.record, Option.some.injEq, Prod.mk.injEq] at h
          obtain ⟨rfl, rfl⟩ := h
          exact ⟨Nat.le_refl 1, hlat, t, rfl, begins_iff.mpr ⟨hopen, hstrobe, rfl⟩⟩
    · rintro ⟨h1, hle, u, hu, hbegins⟩
      rcases Nat.lt_or_eq_of_le h1 with hlt | rfl
      · have hopen := ih.mpr ⟨(by omega : 1 ≤ n - 1), by omega, u, by omega, hbegins⟩
        have hne : n - 1 ≠ a.latency := by omega
        rw [ledger_succ, Ledger.step, hopen]
        simp only [if_neg hne, Option.some.injEq, Prod.mk.injEq, true_and]
        omega
      · obtain rfl : t = u := by omega
        rw [open_of_begins hbegins]
        rfl

/-- The next access begins after the acknowledge. -/
theorem begins_apart (h₀ : l₀.open_ = none) {u v : ℕ} {a b : Access} (huv : u < v)
    (ha : (ledger l₀ wb u).begins (wb u) = some a) (hb : (ledger l₀ wb v).begins (wb v) = some b) :
    u + a.latency < v := by
  by_contra hle
  have hopen := (@open_iff l₀ wb h₀ v (v - u) a).mpr ⟨by omega, by omega, u, by omega, ha⟩
  exact absurd ((begins_iff.mp hb).1.symm.trans hopen) (by simp)

/-- The entries that accesses push, where the fields of `FIFO_R0` are as given before. -/
def entriesOf : BitVec 2 × Bool → List Access → List FifoEntry
  | _, [] => []
  | r0, a :: l =>
    match a.wrote 4#3, a.wrote 5#3 with
    | some d, _ => entriesOf (d.extractLsb' 0 2, d.getLsbD 2) l
    | none, some d => ⟨r0.1, r0.2, d⟩ :: entriesOf r0 l
    | none, none => entriesOf r0 l

/-- The fields of `FIFO_R0` after accesses. -/
def fieldsAfter (r0 : BitVec 2 × Bool) (l : List Access) : BitVec 2 × Bool :=
  l.foldl (fun r a => ((a.wrote 4#3).map fun d => (d.extractLsb' 0 2, d.getLsbD 2)).getD r) r0

theorem entriesOf_append (r0 : BitVec 2 × Bool) (l l' : List Access) :
    entriesOf r0 (l ++ l') = entriesOf r0 l ++ entriesOf (fieldsAfter r0 l) l' := by
  induction l generalizing r0 with
  | nil => rfl
  | cons a l ih =>
    rw [List.cons_append, entriesOf, entriesOf, fieldsAfter, List.foldl_cons]
    cases h4 : a.wrote 4#3 with
    | some d => exact ih _
    | none =>
      cases h5 : a.wrote 5#3 with
      | some d => exact congrArg _ (ih _)
      | none => exact ih _

/-- The accesses that begin in the first `t` cycles. -/
def begunBy (l₀ : Ledger) (wb : ℕ → WbMasterOut) (t : ℕ) : List Access :=
  collect (fun u => ((ledger l₀ wb u).begins (wb u)).toList) t

theorem begunBy_succ (t : ℕ) :
    begunBy l₀ wb (t + 1) = begunBy l₀ wb t ++ ((ledger l₀ wb t).begins (wb t)).toList := rfl

theorem fields_begunBy (l₀ : Ledger) (wb : ℕ → WbMasterOut) (t : ℕ) :
    ((ledger l₀ wb t).xsize, (ledger l₀ wb t).xlast) =
      fieldsAfter (l₀.xsize, l₀.xlast) (begunBy l₀ wb t) := by
  induction t with
  | zero => rfl
  | succ t ih =>
    rw [begunBy, collect_succ, fieldsAfter, List.foldl_append]
    show _ = List.foldl _ (fieldsAfter (l₀.xsize, l₀.xlast) (begunBy l₀ wb t)) _
    rw [← ih]
    cases hb : (ledger l₀ wb t).begins (wb t) with
    | some a =>
      rw [open_of_begins hb]
      simp only [Ledger.record, Option.toList_some, List.foldl_cons, List.foldl_nil]
      cases a.wrote 4#3 <;> rfl
    | none =>
      simp only [Option.toList_none, List.foldl_nil]
      rw [ledger_succ, Ledger.step]
      cases hopen : (ledger l₀ wb t).open_ with
      | some p => rfl
      | none =>
        have hsilent : ¬ ((wb t).cyc && (wb t).stb) = true := fun hs => by
          rw [begins_iff.mpr ⟨hopen, hs, rfl⟩] at hb
          exact absurd hb (by simp)
        simp only [if_neg hsilent]

/-- Every write of `FIFO_R1` pushes its entry once, one cycle later. -/
theorem pushes_begunBy (h₀ : l₀.open_ = none) (t : ℕ) :
    collect (fun u => (ledger l₀ wb u).push.toList) (t + 1) =
      entriesOf (l₀.xsize, l₀.xlast) (begunBy l₀ wb t) := by
  induction t with
  | zero =>
    rw [collect_succ]
    have hnone : (ledger l₀ wb 0).push = none := by
      show l₀.push = none
      rw [Ledger.push, Ledger.wroteAt, h₀]
      rfl
    rw [hnone]
    rfl
  | succ t ih =>
    rw [collect_succ, ih, begunBy_succ, entriesOf_append, ← fields_begunBy]
    congr 1
    cases hb : (ledger l₀ wb t).begins (wb t) with
    | some a =>
      rw [open_of_begins hb]
      simp only [Ledger.push, Ledger.wroteAt, Ledger.record, if_true, Option.toList_some, entriesOf]
      cases h4 : a.wrote 4#3 with
      | some d =>
        have h5 : a.wrote 5#3 = none := by
          have hreg : a.reg = 4#3 := by
            by_contra hne
            rw [Access.wrote, if_neg fun hw => hne hw.2] at h4
            exact absurd h4 (by simp)
          exact if_neg fun hw => absurd (hreg.symm.trans hw.2) (by decide)
        rw [h5]
        rfl
      | none =>
        cases a.wrote 5#3 <;> rfl
    | none =>
      -- No access of age 1 is under way.
      have hpush : (ledger l₀ wb (t + 1)).push = none := by
        rw [Ledger.push, Ledger.wroteAt]
        cases hopen : (ledger l₀ wb (t + 1)).open_ with
        | none => rfl
        | some p =>
          obtain ⟨-, -, u, hu, hbegins⟩ := (@open_iff l₀ wb h₀ _ _ _).mp hopen
          have hne : p.2 ≠ 1 := by
            intro hone
            obtain rfl : t = u := by omega
            exact absurd (hb.symm.trans hbegins) (by simp)
          simp [hne]
      rw [hpush]
      rfl

end Runs

/-! ## The writes of a host program -/

section Host

open Svec.Host

variable {M : Machine}

/-- The access that a write of a host program makes. -/
def accessOf (w : BusWrite M) : Access := ⟨true, w.addr.extractLsb' 2 3, w.value⟩

/-- The address is that of a register of the block. -/
def RegAddr (w : BusWrite M) : Prop := w.addr = (w.addr.extractLsb' 2 3).setWidth 32 <<< 2

theorem addr_eq_iff {w : BusWrite M} (h : RegAddr w) {reg : BitVec 3} {addr : Word}
    (haddr : addr = reg.setWidth 32 <<< 2) (hreg : reg = addr.extractLsb' 2 3) :
    w.addr = addr ↔ w.addr.extractLsb' 2 3 = reg :=
  ⟨fun heq => by rw [heq, hreg], fun heq => by rw [h, heq, haddr]⟩

/-- The entries that the writes of a host program stand for are those that the block pushes for
their accesses. -/
theorem pushes_eq_entriesOf (l : List (BusWrite M)) (hl : ∀ w ∈ l, RegAddr w) (r0 : Word) :
    (pushes r0 l).map (fun p => p.entry) =
      entriesOf (r0.extractLsb' 0 2, r0.getLsbD 2) (l.map accessOf) := by
  induction l generalizing r0 with
  | nil => rfl
  | cons w l ih =>
    have ih' := fun r => ih (fun v hv => hl v (List.mem_cons_of_mem _ hv)) r
    have haddr := hl w (List.mem_cons_self ..)
    have h4 := @addr_eq_iff M w haddr 4#3 regFifoR0 rfl rfl
    have h5 := @addr_eq_iff M w haddr 5#3 regFifoR1 rfl rfl
    rw [pushes, List.map_cons, entriesOf]
    simp only [accessOf, Access.wrote, true_and]
    by_cases hr0 : w.addr = regFifoR0
    · rw [if_pos hr0, if_pos (h4.mp hr0)]
      exact ih' w.value
    · rw [if_neg hr0, if_neg fun h => hr0 (h4.mpr h)]
      by_cases hr1 : w.addr = regFifoR1
      · rw [if_pos hr1, if_pos (h5.mp hr1), List.map_cons]
        exact congrArg _ (ih' r0)
      · rw [if_neg hr1, if_neg fun h => hr1 (h5.mpr h)]
        exact ih' r0

end Host

/-! ## Runs of the block -/

/-- What the block reads in a cycle. -/
structure BlockIn where
  wb : WbMasterOut
  flags : FifoFlags
  regsI : RegsIn

/-- The block at every cycle after a reset. -/
def block (w₀ : XloaderWb.Regs) (inp : ℕ → BlockIn) : ℕ → XloaderWb.Regs :=
  run (fun w i => XloaderWb.step w true i.wb i.flags i.regsI) w₀.reset inp

/-- The access that begins in a cycle: a strobe while none is under way. -/
def begun (w : XloaderWb.Regs) (wb : WbMasterOut) : Option Access :=
  if !w.ackInProgress && wb.cyc && wb.stb then some (access wb) else none

/-- What the block pushes in a cycle. -/
def pushOf (w : XloaderWb.Regs) : Option FifoEntry := if w.fifoWrreqInt then some w.fifoInInt else none

/-- The ledger after a reset. -/
def freshLedger (w₀ : XloaderWb.Regs) : Ledger :=
  ⟨none, false, 0#6, w₀.fifoInInt.xsize, w₀.fifoInInt.xlast⟩

theorem keeps_reset (w₀ : XloaderWb.Regs) : Keeps w₀.reset (freshLedger w₀) :=
  ⟨rfl, rfl, rfl, rfl, fun _ => ⟨rfl, rfl, rfl, rfl, rfl, rfl, rfl, rfl, rfl, rfl⟩,
    fun _ _ h => absurd h (by simp [freshLedger])⟩

theorem keeps_run (w₀ : XloaderWb.Regs) (inp : ℕ → BlockIn) (t : ℕ) :
    Keeps (block w₀ inp t) (ledger (freshLedger w₀) (fun u => (inp u).wb) t) :=
  related_run (R := fun _ => Keeps) (keeps_reset w₀) (fun _ _ h => keeps_step h) (Nat.le_refl t)

theorem Keeps.begun_eq {w : XloaderWb.Regs} {l : Ledger} (h : Keeps w l) (wb : WbMasterOut) :
    begun w wb = l.begins wb := by
  unfold begun Ledger.begins
  rw [h.begins]
  cases l.open_ <;> rfl

/-- What the block makes of the accesses of the bus. -/
structure Serves (w : ℕ → XloaderWb.Regs) (wb : ℕ → WbMasterOut) (r0 : BitVec 2 × Bool) : Prop where
  /-- Each access is acknowledged when its latency has passed, and at no other time. -/
  ack : ∀ t, XloaderWb.wbAck (w t) = true ↔ ∃ u a, begun (w u) (wb u) = some a ∧ t = u + a.latency
  /-- The next access begins after that. -/
  apart : ∀ u v a b, u < v → begun (w u) (wb u) = some a → begun (w v) (wb v) = some b →
    u + a.latency < v
  /-- A bit of CSR that is written is a pulse of one cycle. -/
  start : ∀ t, (w t).csrStart = true ↔
    ∃ u a, begun (w u) (wb u) = some a ∧ a.csrBit 0 = true ∧ t = u + 2
  swrst : ∀ t, (w t).csrSwrst = true ↔
    ∃ u a, begun (w u) (wb u) = some a ∧ a.csrBit 5 = true ∧ t = u + 2
  exit : ∀ t, (w t).csrExit = true ↔
    ∃ u a, begun (w u) (wb u) = some a ∧ a.csrBit 6 = true ∧ t = u + 2
  /-- The entries pushed are those written, each once and in order. -/
  push : ∀ t, collect (fun u => (pushOf (w u)).toList) (t + 1) =
    entriesOf r0 (collect (fun u => (begun (w u) (wb u)).toList) t)

theorem csrBit_csr {a : Access} {b : ℕ} (h : a.csrBit b = true) : a.latency = 3 := by
  unfold Access.latency
  refine if_pos ?_
  by_contra hne
  rw [Access.csrBit, Access.wrote, if_neg fun hw => hne hw.2] at h
  exact absurd h (by simp)

/-- A pulse of the ledger is a write two cycles before. -/
theorem pulse_iff {l₀ : Ledger} {wb : ℕ → WbMasterOut} (h₀ : l₀.open_ = none) (b t : ℕ) :
    (ledger l₀ wb t).pulse b = true ↔
      ∃ u a, (ledger l₀ wb u).begins (wb u) = some a ∧ a.csrBit b = true ∧ t = u + 2 := by
  unfold Ledger.pulse Ledger.wroteAt
  constructor
  · intro h
    cases hopen : (ledger l₀ wb t).open_ with
    | none =>
      rw [hopen] at h
      exact absurd h (by simp)
    | some p =>
      obtain ⟨a, n⟩ := p
      simp only [hopen] at h
      by_cases hn : n = 2
      · obtain ⟨-, -, u, hu, hbegins⟩ := (open_iff h₀).mp hopen
        rw [if_pos hn] at h
        exact ⟨u, a, hbegins, h, hn ▸ hu⟩
      · rw [if_neg hn] at h
        exact absurd h (by simp)
  · rintro ⟨u, a, hbegins, hbit, hu⟩
    have hlat := csrBit_csr hbit
    have hopen : (ledger l₀ wb t).open_ = some (a, 2) :=
      (open_iff h₀).mpr ⟨by omega, by omega, u, hu, hbegins⟩
    simp only [hopen, if_true]
    exact hbit

theorem ack_iff {l₀ : Ledger} {wb : ℕ → WbMasterOut} (h₀ : l₀.open_ = none) (t : ℕ) :
    (ledger l₀ wb t).ack = true ↔
      ∃ u a, (ledger l₀ wb u).begins (wb u) = some a ∧ t = u + a.latency := by
  unfold Ledger.ack
  constructor
  · intro h
    cases hopen : (ledger l₀ wb t).open_ with
    | none =>
      rw [hopen] at h
      exact absurd h (by simp)
    | some p =>
      obtain ⟨a, n⟩ := p
      obtain ⟨-, -, u, hu, hbegins⟩ := (open_iff h₀).mp hopen
      rw [hopen, Option.any_some, decide_eq_true_eq] at h
      have hn : n = a.latency := h
      exact ⟨u, a, hbegins, hn ▸ hu⟩
  · rintro ⟨u, a, hbegins, hu⟩
    have hlat : 1 ≤ a.latency := by
      unfold Access.latency
      split <;> decide
    have hopen : (ledger l₀ wb t).open_ = some (a, a.latency) :=
      (open_iff h₀).mpr ⟨hlat, Nat.le_refl _, u, hu, hbegins⟩
    rw [hopen]
    simp

/-- From a reset on, on every waveform of the bus. -/
theorem block_serves (w₀ : XloaderWb.Regs) (inp : ℕ → BlockIn) :
    Serves (block w₀ inp) (fun t => (inp t).wb) (w₀.fifoInInt.xsize, w₀.fifoInInt.xlast) := by
  obtain ⟨l, hl⟩ : ∃ l, l = ledger (freshLedger w₀) (fun t => (inp t).wb) := ⟨_, rfl⟩
  have hkeeps : ∀ t, Keeps (block w₀ inp t) (l t) := fun t => hl ▸ keeps_run w₀ inp t
  have hbegun : ∀ t, begun (block w₀ inp t) (inp t).wb = (l t).begins (inp t).wb :=
    fun t => (hkeeps t).begun_eq _
  have h₀ : (freshLedger w₀).open_ = none := rfl
  refine ⟨fun t => ?_, fun u v a b huv ha hb => ?_, fun t => ?_, fun t => ?_, fun t => ?_, fun t => ?_⟩
  · simp only [(hkeeps t).ack, hbegun]
    rw [hl]
    exact ack_iff h₀ t
  · rw [hbegun, hl] at ha hb
    exact @begins_apart (freshLedger w₀) (fun t => (inp t).wb) h₀ u v a b huv ha hb
  · simp only [(hkeeps t).pulses.1, hbegun]
    rw [hl]
    exact pulse_iff h₀ 0 t
  · simp only [(hkeeps t).pulses.2.1, hbegun]
    rw [hl]
    exact pulse_iff h₀ 5 t
  · simp only [(hkeeps t).pulses.2.2, hbegun]
    rw [hl]
    exact pulse_iff h₀ 6 t
  · simp only [pushOf, fun u => (hkeeps u).push, hbegun]
    rw [hl]
    exact pushes_begunBy h₀ t

end Svec.Loader.Registers
