/-
  Ddr/System.lean --- a host, the carrier and its two memory controllers.

  The host makes one access after the other, with pauses as it likes: it holds an
  access on the bus until it is acknowledged.  From cycle to cycle the memories are
  either settled (`Holds`), or one of them has taken a request and owes the reply
  (`Waiting`); the strobe of a page is a request in its first cycle only.  A page is
  strobed in two phases of the register block (`page`).
-/
import Svec.Carrier.Phases
import Svec.Ddr.Controller
import Svec.Data.Cursor
import Svec.Sync.Machine

set_option autoImplicit false

namespace Svec.Ddr

open Svec.Data Svec.Sync Svec.Hdl Svec.Hdl.SvecBaseRegs Svec.Hdl.SvecBaseWr
open Svec.Carrier (Phase At readPhase writePhase step_bus)

/-! ## The host -/

/-- An access of a word: to an address register, or to a page at any offset. -/
inductive Access where
  | writeAddr (b : Bank) (a : Word)
  | readAddr (b : Bank)
  | writeData (b : Bank) (offset : BitVec 10) (w : Word)
  | readData (b : Bank) (offset : BitVec 10)

/-- `DDR4_ADDR` and `DDR5_ADDR`. -/
def ddrAddr : Bank → Word
  | .ddr4 => 0x58#32
  | .ddr5 => 0x5c#32

/-- The pages `DDR4_DATA` and `DDR5_DATA`, by their number. -/
def ddrPage : Bank → BitVec 20
  | .ddr4 => 0x2#20
  | .ddr5 => 0x3#20

/-- A word of a page. -/
def ddrData (b : Bank) (offset : BitVec 10) : Word := ddrPage b ++ (offset ++ 0#2)

/-- The lines of the bus during an access. -/
def Access.lines : Access → WbMasterOut
  | .writeAddr b a => ⟨true, true, ddrAddr b, 0xf#4, true, a⟩
  | .readAddr b => ⟨true, true, ddrAddr b, 0xf#4, false, 0#32⟩
  | .writeData b offset w => ⟨true, true, ddrData b offset, 0xf#4, true, w⟩
  | .readData b offset => ⟨true, true, ddrData b offset, 0xf#4, false, 0#32⟩

/-- What an access is to the memories behind their cursors. -/
def Access.op : Access → CursorOp Bank Word
  | .writeAddr b a => .seek b a
  | .readAddr b => .tell b
  | .writeData b _ w => .put b w
  | .readData b _ => .get b

/-- What the host does next: nothing for a cycle, with whatever else on the lines, or an
access. -/
inductive Slot where
  | pause (lines : WbMasterOut)
  | access (a : Access)

/-- The access of a slot. -/
def Slot.op? : Slot → Option (CursorOp Bank Word)
  | .pause _ => none
  | .access a => some a.op

/-- What a list of slots is to the memories. -/
def ops (script : List Slot) : List (CursorOp Bank Word) := script.filterMap Slot.op?

/-- The host: what is still to be done, and what the accesses so far returned. -/
structure Host where
  script : List Slot
  answers : List (Option Word)

def Host.lines (h : Host) : WbMasterOut :=
  match h.script with
  | [] => ⟨false, false, 0#32, 0#4, false, 0#32⟩
  | .pause l :: _ => { l with stb := false }
  | .access a :: _ => a.lines

def Host.next (h : Host) (wbI : WbMasterIn) : Host :=
  match h.script with
  | [] => h
  | .pause _ :: rest => { h with script := rest }
  | .access a :: rest =>
    if wbI.ack then ⟨rest, h.answers ++ [if a.lines.we then none else some wbI.dat]⟩ else h

/-! ## The system -/

/-- The host and the carrier. -/
structure Sys where
  host : Host
  regs : SvecBaseWr.Regs

/-- The inputs of the carrier: the lines of the host, no reset, and the rest from outside. -/
def Sys.inputs (s : Sys) (e : SvecBaseWr.In) : SvecBaseWr.In :=
  { e with rstSys62m5N := true, carrierWbIn := s.host.lines }

/-- A cycle. -/
def Sys.step (s : Sys) (e : SvecBaseWr.In) : Sys where
  host := s.host.next (carrierWbOut s.regs (s.inputs e))
  regs := SvecBaseWr.step s.regs (s.inputs e)

/-- The port of a bank's controller in every cycle. -/
def portOf (s : Sys) (env : ℕ → SvecBaseWr.In) (b : Bank) (t : ℕ) : DdrPort :=
  ddrPort (run Sys.step s env t).regs ((run Sys.step s env t).inputs (env t)) b

/-- What the controller of a bank returns in every cycle. -/
def answersOf (env : ℕ → SvecBaseWr.In) (b : Bank) (t : ℕ) : WbMasterIn := (env t).ddrDataIn b

/-- The step of the cursors. -/
def nextWord (a : Word) : Word := a + 4#32

/-! ### The places on the bus -/

theorem decode_ddrAddr (b : Bank) : decode ((ddrAddr b).extractLsb' 2 12) = .csrDdrAddr b := by
  cases b <;> decide

theorem decode_ddrData (b : Bank) (offset : BitVec 10) :
    decode ((ddrData b offset).extractLsb' 2 12) = .submap (.ddrData b) := by
  have hpage : ((ddrData b offset).extractLsb' 2 12).extractLsb' 10 2 = (ddrPage b).extractLsb' 0 2 := by
    apply BitVec.eq_of_getLsbD_eq
    intro k hk
    have hadr : 10 + k < 12 := by omega
    have hoffset : ¬ 2 + (10 + k) < 10 + 2 := by omega
    simp only [BitVec.getLsbD_extractLsb', ddrData, BitVec.getLsbD_append, hk, hadr, hoffset, decide_true,
      Bool.true_and, if_false]
    exact congrArg _ (by omega)
  unfold decode
  rw [hpage]
  cases b <;> rfl

/-! ## Cycle by cycle -/

/-- Nothing is going on in the register block. -/
abbrev Idle (r : SvecBaseRegs.Regs) : Prop := At .idle r

/-- The bank whose page is strobed in a phase. -/
def page : Phase → Option Bank
  | .writeBusy (.ddrData b) | .readBusy (.ddrData b) => some b
  | _ => none

theorem strobe_of_at {p : Phase} {r : SvecBaseRegs.Regs} (h : At p r) (b : Bank) :
    (r.wt (.ddrData b) || r.rt (.ddrData b)) = decide (page p = some b) := by
  rw [h.wt, h.rt]
  cases p with
  | writeBusy m | readBusy m => cases m <;> simp [page]
  | _ => simp [page]

/-- Only the decoding of a write sets an address. -/
theorem csrDdrAddrWreq_of_at {p : Phase} {r : SvecBaseRegs.Regs} (h : At p r) (hp : p ≠ .writeRequested)
    (b : Bank) : csrDdrAddrWreq r b = false := by
  rw [csrDdrAddrWreq, h.wrReqD0, decide_eq_false hp, Bool.and_false]

/-- No page is strobed then. -/
theorem ne_writeRequested_of_page {p : Phase} {b : Bank} (h : page p = some b) : p ≠ .writeRequested := by
  rintro rfl
  cases h

section Run

variable {s₀ : Sys} {env : ℕ → SvecBaseWr.In} {cell₀ : Bank → Word → Word}

/-- The registers in a cycle. -/
abbrev regsAt (s₀ : Sys) (env : ℕ → SvecBaseWr.In) (t : ℕ) : SvecBaseWr.Regs := (run Sys.step s₀ env t).regs

/-- The host in a cycle. -/
abbrev hostAt (s₀ : Sys) (env : ℕ → SvecBaseWr.In) (t : ℕ) : Host := (run Sys.step s₀ env t).host

/-- The inputs of the register block in a cycle. -/
abbrev baseAt (s₀ : Sys) (env : ℕ → SvecBaseWr.In) (t : ℕ) : SvecBaseRegs.In :=
  baseIn (regsAt s₀ env t) ((run Sys.step s₀ env t).inputs (env t))

/-- A page is accessed in the first cycle of its strobe. -/
theorem asks_portOf (b : Bank) (t : ℕ) : asks (portOf s₀ env b t) =
    (((regsAt s₀ env t).base.wt (.ddrData b) || (regsAt s₀ env t).base.rt (.ddrData b)) &&
      !(regsAt s₀ env t).ddrDataStbD b) := by
  simp only [asks, portOf, ddrPort, ddrDataStb, ddrDataOut, submapO]
  cases (regsAt s₀ env t).base.wt (.ddrData b) <;> cases (regsAt s₀ env t).base.rt (.ddrData b) <;> rfl

theorem stbD_succ (b : Bank) (t : ℕ) : (regsAt s₀ env (t + 1)).ddrDataStbD b =
    ((regsAt s₀ env t).base.wt (.ddrData b) || (regsAt s₀ env t).base.rt (.ddrData b)) := rfl

theorem base_succ (t : ℕ) : (regsAt s₀ env (t + 1)).base =
    SvecBaseRegs.step (regsAt s₀ env t).base (baseAt s₀ env t) := rfl

theorem csr_succ (b : Bank) (t : ℕ) : (regsAt s₀ env (t + 1)).csrDdrAddr b =
    if csrDdrAddrWreq (regsAt s₀ env t).base b then (regsAt s₀ env t).base.wrDatD0
    else if (answersOf env b t).ack then nextWord ((regsAt s₀ env t).csrDdrAddr b)
    else (regsAt s₀ env t).csrDdrAddr b := rfl

/-- While an access is not acknowledged the host stays. -/
theorem host_stays {t : ℕ} {a : Access} {rest : List Slot} (hscript : (hostAt s₀ env t).script = .access a :: rest)
    (hack : ackInt (regsAt s₀ env t).base (baseAt s₀ env t) = false) :
    hostAt s₀ env (t + 1) = hostAt s₀ env t := by
  show (hostAt s₀ env t).next (carrierWbOut _ _) = hostAt s₀ env t
  have hno : (carrierWbOut (regsAt s₀ env t) ((run Sys.step s₀ env t).inputs (env t))).ack = false := hack
  simp only [Host.next, hscript, hno, Bool.false_eq_true, if_false]

/-- Then it goes on. -/
theorem host_moves {t : ℕ} {a : Access} {rest : List Slot} (hscript : (hostAt s₀ env t).script = .access a :: rest)
    (hack : ackInt (regsAt s₀ env t).base (baseAt s₀ env t) = true) :
    hostAt s₀ env (t + 1) = ⟨rest, (hostAt s₀ env t).answers ++
      [if a.lines.we then none else some (regsAt s₀ env t).base.wbDatO]⟩ := by
  show (hostAt s₀ env t).next (carrierWbOut _ _) = _
  have hyes : (carrierWbOut (regsAt s₀ env t) ((run Sys.step s₀ env t).inputs (env t))).ack = true := hack
  simp only [Host.next, hscript, hyes, if_true]
  rfl

/-- The bus during an access. -/
theorem wb_access {t : ℕ} {a : Access} {rest : List Slot} (hscript : (hostAt s₀ env t).script = .access a :: rest) :
    (baseAt s₀ env t).wb = a.lines := by
  show (hostAt s₀ env t).lines = a.lines
  rw [Host.lines, hscript]

/-! ### The memories -/

/-- The controllers of both banks serve their ports as memories. -/
abbrev Served (s₀ : Sys) (env : ℕ → SvecBaseWr.In) (cell₀ : Bank → Word → Word) : Prop :=
  ∀ b, ServesMemory (cell₀ b) (portOf s₀ env b) (answersOf env b)

/-- The cursors and the memories, with nothing owed, and the number of requests so far. -/
structure Holds (s₀ : Sys) (env : ℕ → SvecBaseWr.In) (cell₀ : Bank → Word → Word) (t : ℕ)
    (m : Bank → CursorMem Word) (n : Bank → ℕ) : Prop where
  cursor : ∀ b, (regsAt s₀ env t).csrDdrAddr b = (m b).cursor
  settled : ∀ b, Settled (cell₀ b) (portOf s₀ env b) (answersOf env b) t (m b).cell (n b)

/-- A reply is owed by the controller of `b`; the memories are those after its request, and
the cursors those before. -/
structure Waiting (s₀ : Sys) (env : ℕ → SvecBaseWr.In) (cell₀ : Bank → Word → Word) (t : ℕ) (b : Bank)
    (x : Option Word) (m : Bank → CursorMem Word) (n : Bank → ℕ) : Prop where
  cursor : ∀ b', (regsAt s₀ env t).csrDdrAddr b' = (m b').cursor
  due : Due (cell₀ b) (portOf s₀ env b) (answersOf env b) t x (m b).cell (n b)
  settled : ∀ b', b' ≠ b →
    Settled (cell₀ b') (portOf s₀ env b') (answersOf env b') t (m b').cell (n b')

section Cycle

variable {t : ℕ} {b : Bank} {x : Option Word} {m : Bank → CursorMem Word} {n : Bank → ℕ} {p : Phase}

/-- A cycle without a strobe. -/
theorem Holds.quiet (hm : Holds s₀ env cell₀ t m n) (hctrl : Served s₀ env cell₀)
    (h : At p (regsAt s₀ env t).base) (hpage : page p = none) :
    (∀ b, (answersOf env b t).ack = false) ∧ (∀ b, (regsAt s₀ env (t + 1)).ddrDataStbD b = false) ∧
      ∀ b, Settled (cell₀ b) (portOf s₀ env b) (answersOf env b) (t + 1) (m b).cell (n b) := by
  have hstrobe : ∀ b, ((regsAt s₀ env t).base.wt (.ddrData b) || (regsAt s₀ env t).base.rt (.ddrData b)) = false := by
    intro b
    rw [strobe_of_at h, hpage]
    rfl
  have hno : ∀ b, asks (portOf s₀ env b t) = false := by
    intro b
    rw [asks_portOf, hstrobe, Bool.false_and]
  exact ⟨fun b => ((hm.settled b).quiet (hctrl b) (hno b)).1, fun b => (stbD_succ b t).trans (hstrobe b),
    fun b => ((hm.settled b).quiet (hctrl b) (hno b)).2⟩

/-- If no address is written either, everything stays. -/
theorem Holds.stays (hm : Holds s₀ env cell₀ t m n) (hctrl : Served s₀ env cell₀)
    (h : At p (regsAt s₀ env t).base) (hpage : page p = none)
    (hwreq : ∀ b, csrDdrAddrWreq (regsAt s₀ env t).base b = false) : Holds s₀ env cell₀ (t + 1) m n := by
  obtain ⟨hack, -, hsettled⟩ := hm.quiet hctrl h hpage
  refine ⟨fun b => ?_, hsettled⟩
  rw [csr_succ, hwreq, hack]
  exact hm.cursor b

/-- The first cycle of a strobe is a request. -/
theorem Holds.request (hm : Holds s₀ env cell₀ t m n)
    (h : At p (regsAt s₀ env t).base) (hpage : page p = some b)
    (hfirst : ∀ b', (regsAt s₀ env t).ddrDataStbD b' = false) :
    Waiting s₀ env cell₀ t b (reply (portOf s₀ env b t) (m b).cell)
      (Function.update m b ⟨(m b).cursor, perform (portOf s₀ env b t) (m b).cell⟩)
      (Function.update n b (n b + 1)) := by
  have hasks : ∀ b', asks (portOf s₀ env b' t) = decide (b' = b) := by
    intro b'
    rw [asks_portOf, strobe_of_at h, hpage, hfirst, Bool.not_false, Bool.and_true]
    simp [eq_comm]
  refine ⟨fun b' => ?_, ?_, fun b' hb' => ?_⟩
  · by_cases hb' : b' = b
    · subst hb'
      rw [Function.update_self]
      exact hm.cursor b'
    · rw [Function.update_of_ne hb']
      exact hm.cursor b'
  · rw [Function.update_self, Function.update_self]
    exact (hm.settled b).request ((hasks b).trans (decide_eq_true rfl))
  · rw [Function.update_of_ne hb', Function.update_of_ne hb']
    exact hm.settled b'

/-- The other bank is quiet meanwhile. -/
theorem Waiting.others (hw : Waiting s₀ env cell₀ t b x m n) (hctrl : Served s₀ env cell₀)
    (h : At p (regsAt s₀ env t).base) (hpage : page p = some b)
    {b' : Bank} (hb' : b' ≠ b) : (answersOf env b' t).ack = false ∧
      Settled (cell₀ b') (portOf s₀ env b') (answersOf env b') (t + 1) (m b').cell (n b') := by
  refine (hw.settled b' hb').quiet (hctrl b') ?_
  have hother : ¬ page p = some b' := by
    rw [hpage]
    exact fun heq => hb' (Option.some.inj heq).symm
  rw [asks_portOf, strobe_of_at h, decide_eq_false hother, Bool.false_and]

/-- The acknowledge moves the cursor, and brings the word. -/
theorem Waiting.acked (hw : Waiting s₀ env cell₀ t b x m n) (hctrl : Served s₀ env cell₀)
    (h : At p (regsAt s₀ env t).base) (hpage : page p = some b)
    (hack : (answersOf env b t).ack = true) :
    Holds s₀ env cell₀ (t + 1) (CursorOp.effect nextWord m (.get b)) n ∧
      ∀ w, x = some w → (answersOf env b t).dat = w := by
  obtain ⟨hsettled, hword⟩ := hw.due.acked (hctrl b) hack
  refine ⟨⟨fun b' => ?_, fun b' => ?_⟩, hword⟩
  · rw [csr_succ, csrDdrAddrWreq_of_at h (ne_writeRequested_of_page hpage)]
    by_cases hb' : b' = b
    · subst hb'
      simp [CursorOp.effect, hack, hw.cursor]
    · simp [CursorOp.effect, Function.update_of_ne hb', (hw.others hctrl h hpage hb').1, hw.cursor]
  · by_cases hb' : b' = b
    · subst hb'
      simpa [CursorOp.effect] using hsettled
    · simpa [CursorOp.effect, Function.update_of_ne hb'] using (hw.others hctrl h hpage hb').2

/-- Without one the strobe stays up, and is no second request. -/
theorem Waiting.waits (hw : Waiting s₀ env cell₀ t b x m n) (hctrl : Served s₀ env cell₀)
    (h : At p (regsAt s₀ env t).base) (hpage : page p = some b)
    (hack : (answersOf env b t).ack = false) : Waiting s₀ env cell₀ (t + 1) b x m n := by
  have hnone : ∀ b', (answersOf env b' t).ack = false := by
    intro b'
    by_cases hb' : b' = b
    · rw [hb']
      exact hack
    · exact (hw.others hctrl h hpage hb').1
  refine ⟨fun b' => ?_, hw.due.waits hack ?_, fun b' hb' => (hw.others hctrl h hpage hb').2⟩
  · rw [csr_succ, csrDdrAddrWreq_of_at h (ne_writeRequested_of_page hpage), hnone]
    exact hw.cursor b'
  · rw [asks_portOf, stbD_succ, strobe_of_at h, decide_eq_true hpage, Bool.not_true, Bool.and_false]

end Cycle

/-! ### An access to a page -/

/-- An access that keeps the block busy until the controller acknowledges. -/
theorem Waiting.until_ack {v : ℕ} {a : Access} {rest : List Slot} {b : Bank} {x : Option Word}
    {m : Bank → CursorMem Word} {n : Bank → ℕ} {p : Phase}
    (hctrl : Served s₀ env cell₀)
    (hscript : (hostAt s₀ env v).script = .access a :: rest) (Busy : SvecBaseRegs.Regs → Prop)
    (hphase : ∀ r, Busy r → At p r) (hpage : page p = some b)
    (hstay : ∀ r i, Busy r → i.rstN = true → i.wb = a.lines → (i.submapI (.ddrData b)).ack = false →
      Busy (SvecBaseRegs.step r i) ∧ ackInt r i = false)
    (hbusy : Busy (regsAt s₀ env v).base) (hw : Waiting s₀ env cell₀ v b x m n) :
    ∃ u, v ≤ u ∧ (answersOf env b u).ack = true ∧ Busy (regsAt s₀ env u).base ∧
      hostAt s₀ env u = hostAt s₀ env v ∧ Waiting s₀ env cell₀ u b x m n := by
  obtain ⟨w, hvw, hw'⟩ := hw.due.ack_comes (hctrl b)
  obtain ⟨u, hvu, -, hack, hfirst⟩ := exists_first (P := fun t => (answersOf env b t).ack = true) hvw hw'
  suffices hall : ∀ k, v ≤ k → k ≤ u → Busy (regsAt s₀ env k).base ∧ hostAt s₀ env k = hostAt s₀ env v ∧
      Waiting s₀ env cell₀ k b x m n by
    obtain ⟨hb, hh, hwait⟩ := hall u hvu (Nat.le_refl u)
    exact ⟨u, hvu, hack, hb, hh, hwait⟩
  intro k hvk
  induction hvk with
  | refl => exact fun _ => ⟨hbusy, rfl, hw⟩
  | @step k hvk ih =>
    intro hku
    obtain ⟨hb, hh, hwait⟩ := ih (Nat.le_of_succ_le hku)
    have hno : (answersOf env b k).ack = false := Bool.eq_false_iff.mpr (hfirst k hvk hku)
    have hscript' : (hostAt s₀ env k).script = .access a :: rest := by rw [hh, hscript]
    obtain ⟨hb', hnack⟩ := hstay _ (baseAt s₀ env k) hb rfl (wb_access hscript') hno
    exact ⟨hb', (host_stays hscript' hnack).trans hh, hwait.waits hctrl (hphase _ hb) hpage hno⟩

end Run

end Svec.Ddr
