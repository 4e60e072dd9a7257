/-
  Hdl/MiniVme.lean --- the minimal VME slave, `mini_vme.vhd`.

  The core answers CR/CSR accesses to the card's own slot and turns them into
  Wishbone transactions.  The inputs below are the bus signals and the outputs of
  the three synchronisers (`gc_sync_ffs`, not part of this repository); AS, DS and
  WRITE are active low, so a synchronised level of `true` means released.

  Address and data are latched by a process each, decoded by a third one cycle
  later, and used by the state machine in between; the structure of `Regs`
  follows that split.
-/
import Svec.Sync.Machine
import Svec.Data.Bits

set_option autoImplicit false

namespace Svec.Hdl

open Svec.Data

/-- `t_wishbone_master_out`. -/
structure WbMasterOut where
  cyc : Bool
  stb : Bool
  adr : BitVec 32
  sel : BitVec 4
  we : Bool
  dat : Word
  deriving DecidableEq, Repr, Inhabited

/-- `t_wishbone_master_in`, without the error and retry lines that nobody drives. -/
structure WbMasterIn where
  ack : Bool
  stall : Bool
  dat : Word
  deriving DecidableEq, Repr, Inhabited

namespace MiniVme

/-- `t_fsm_state`. -/
inductive State where
  | idle | decodeAddr | execCycle | waitAck | dtack
  deriving DecidableEq, Repr, Inhabited

/-- AM code of CR/CSR transfers, the only ones the core is interested in. -/
def cAmCsCsr : BitVec 6 := 0x2f#6

/-- The generics `g_user_csr_start` and `g_user_csr_end`. -/
structure Generics where
  gUserCsrStart : BitVec 21
  gUserCsrEnd : BitVec 21

/-- The bus in one cycle: the synchronised strobes, and the rest as it is on the pins.
`vmeAddr` holds A31 to A1. -/
structure In where
  rstN : Bool
  asSynced : Bool
  asP1 : Bool
  dsSynced : Bool
  dsP1 : Bool
  writeN : Bool
  vmeLwordN : Bool
  vmeDsN : BitVec 2
  vmeGa : BitVec 6
  vmeAm : BitVec 6
  vmeAddr : BitVec 31
  vmeData : Word
  masterI : WbMasterIn
  deriving DecidableEq, Repr, Inhabited

/-- The address phase of a VME cycle. -/
structure AddrPhase where
  addr : BitVec 31
  am : BitVec 6
  ga : BitVec 6
  lword : Bool
  deriving DecidableEq, Repr, Inhabited

/-- The data phase of a VME cycle. -/
structure DataPhase where
  data : Word
  ds : BitVec 2
  deriving DecidableEq, Repr, Inhabited

/-- The registers of `p_latch_addr`. -/
structure AddrRegs where
  latched : AddrPhase
  valid : Bool
  deriving DecidableEq, Repr, Inhabited

/-- The registers of `p_latch_data`. -/
structure DataRegs where
  latched : DataPhase
  valid : Bool
  deriving DecidableEq, Repr, Inhabited

/-- The registers of `p_decode`. -/
structure MatchRegs where
  am : Bool
  addr : Bool
  dtype : Bool
  deriving DecidableEq, Repr, Inhabited

/-- The registers of `p_fsm`, output registers included. -/
structure FsmRegs where
  state : State
  idleO : Bool
  isWrite : Bool
  dtackCounter : BitVec 8
  readbackData : Word
  masterO : WbMasterOut
  vmeDtackN : Bool
  vmeDtackOe : Bool
  vmeDataDir : Bool
  vmeDataOeN : Bool
  vmeDataO : Word
  deriving DecidableEq, Repr, Inhabited

/-- All registers of the core. -/
structure Regs where
  addr : AddrRegs
  data : DataRegs
  cmp : MatchRegs
  fsm : FsmRegs
  deriving DecidableEq, Repr, Inhabited

/-- `ga_parity_ok`: the parity bit makes the number of ones odd. -/
def gaParityOk (ga : BitVec 6) : Bool :=
  ga.getLsbD 5 ^^ ga.getLsbD 4 ^^ ga.getLsbD 3 ^^ ga.getLsbD 2 ^^ ga.getLsbD 1 ^^ ga.getLsbD 0

/-- `addr_latched(23 downto 19)`. -/
def AddrPhase.slot (a : AddrPhase) : BitVec 5 := a.addr.extractLsb' 18 5

/-- `addr_latched(31 downto 24)`. -/
def AddrPhase.high (a : AddrPhase) : BitVec 8 := a.addr.extractLsb' 23 8

/-- `unsigned(addr_latched(18 downto 2)) & "00"`, at the width of the generics. -/
def AddrPhase.offset (a : AddrPhase) : BitVec 21 := 0#2 ++ a.addr.extractLsb' 1 17 ++ 0#2

/-- The condition that sets `addr_match`. -/
def AddrPhase.addrMatch (a : AddrPhase) : Bool :=
  gaParityOk a.ga && a.slot = ~~~(a.ga.extractLsb' 0 5) && a.high = 0#8

/-- The condition that sets `am_match`. -/
def AddrPhase.amMatch (a : AddrPhase) : Bool := a.am = cAmCsCsr

/-- The condition that sets `dtype_match`. -/
def dtypeMatch (a : AddrPhase) (d : DataPhase) : Bool :=
  d.ds = 0#2 && !a.lword && !a.addr.getLsbD 0

/-- The range check of `DECODE_ADDR`. -/
def Generics.inRange (g : Generics) (a : AddrPhase) : Bool :=
  g.gUserCsrStart ≤ a.offset && a.offset ≤ g.gUserCsrEnd

/-- `p_latch_addr`. -/
def pLatchAddr (r : AddrRegs) (i : In) : AddrRegs :=
  if !i.rstN then { r with valid := false }
  else if i.asP1 then ⟨⟨i.vmeAddr, i.vmeAm, i.vmeGa, i.vmeLwordN⟩, true⟩
  else if i.asSynced then { r with valid := false }
  else r

/-- `p_latch_data`. -/
def pLatchData (r : DataRegs) (i : In) : DataRegs :=
  if !i.rstN then { r with valid := false }
  else if i.dsP1 then ⟨⟨i.vmeData, i.vmeDsN⟩, true⟩
  else if i.dsSynced then { r with valid := false }
  else r

/-- `p_decode`. -/
def pDecode (r : Regs) (i : In) : MatchRegs :=
  if !i.rstN then ⟨false, false, false⟩
  else
    { am := r.addr.latched.amMatch
      dtype := dtypeMatch r.addr.latched r.data.latched
      addr := r.addr.latched.addrMatch }

/-- All three flags of `p_decode` are set. -/
def Regs.matched (r : Regs) : Bool := r.cmp.addr && r.cmp.am && r.cmp.dtype

/-- `p_fsm`. -/
def pFsm (g : Generics) (r : Regs) (i : In) : FsmRegs :=
  let f := r.fsm
  if !i.rstN then
    { f with
      state := .idle, idleO := true, vmeDataDir := false, vmeDataOeN := false
      vmeDtackN := false, vmeDtackOe := false }
  else match f.state with
  | .idle =>
    let f' := { f with
      vmeDataDir := false, vmeDtackN := true, vmeDtackOe := false, dtackCounter := 0#8 }
    if r.addr.valid && r.data.valid then { f' with idleO := false, state := .decodeAddr }
    else { f' with idleO := true }
  | .decodeAddr =>
    if r.addr.valid then
      if r.matched then
        -- A matching address out of range has no branch of its own: the state stays.
        if g.inRange r.addr.latched then { f with state := .execCycle, isWrite := !i.writeN } else f
      else { f with state := .idle }
    else f
  | .execCycle =>
    { f with
      state := .waitAck
      masterO := {
        adr := 0#11 ++ (r.addr.latched.offset - g.gUserCsrStart)
        dat := r.data.latched.data, cyc := true, sel := 0xf#4, stb := true, we := f.isWrite } }
  | .waitAck =>
    let f' := if i.masterI.stall then f else { f with masterO := { f.masterO with stb := false } }
    if i.masterI.ack then { f' with state := .dtack, readbackData := i.masterI.dat }
    else if i.dsSynced then { f' with state := .idle }
    else f'
  | .dtack =>
    { f with
      vmeDataO := f.readbackData, vmeDtackN := false, vmeDtackOe := true
      vmeDataDir := !f.isWrite, dtackCounter := f.dtackCounter + 1#8
      state := if i.dsSynced && i.asSynced then .idle else .dtack }

/-- One rising edge of `clk_sys_i`. -/
def step (g : Generics) (r : Regs) (i : In) : Regs :=
  ⟨pLatchAddr r.addr i, pLatchData r.data i, pDecode r i, pFsm g r i⟩

@[simp] theorem step_addr_valid (g : Generics) (r : Regs) (i : In) :
    (step g r i).addr.valid = (i.rstN && (i.asP1 || (!i.asSynced && r.addr.valid))) := by
  show (pLatchAddr r.addr i).valid = _
  unfold pLatchAddr
  cases i.rstN <;> cases i.asP1 <;> cases i.asSynced <;> simp

@[simp] theorem step_data_valid (g : Generics) (r : Regs) (i : In) :
    (step g r i).data.valid = (i.rstN && (i.dsP1 || (!i.dsSynced && r.data.valid))) := by
  show (pLatchData r.data i).valid = _
  unfold pLatchData
  cases i.rstN <;> cases i.dsP1 <;> cases i.dsSynced <;> simp

/-! ## The transitions of the state machine -/

section Transitions

variable {g : Generics} {r : Regs} {i : In}

/-- The transitions of `p_fsm`, each with its condition on the latches and the inputs. -/
inductive Moves (g : Generics) (r : Regs) (i : In) : State → State → Prop where
  | wait (h : (r.addr.valid && r.data.valid) = false) : Moves g r i .idle .idle
  | decode (ha : r.addr.valid = true) (hd : r.data.valid = true) : Moves g r i .idle .decodeAddr
  | accept (ha : r.addr.valid = true) (hm : r.matched = true)
      (hin : g.inRange r.addr.latched = true) : Moves g r i .decodeAddr .execCycle
  | refuse (ha : r.addr.valid = true) (hm : r.matched = false) : Moves g r i .decodeAddr .idle
  | park (h : (r.addr.valid && (!r.matched || g.inRange r.addr.latched)) = false) :
      Moves g r i .decodeAddr .decodeAddr
  | exec : Moves g r i .execCycle .waitAck
  | answer (ha : i.masterI.ack = true) : Moves g r i .waitAck .dtack
  | abandon (ha : i.masterI.ack = false) (hd : i.dsSynced = true) : Moves g r i .waitAck .idle
  | await (ha : i.masterI.ack = false) (hd : i.dsSynced = false) : Moves g r i .waitAck .waitAck
  | release (hd : i.dsSynced = true) (ha : i.asSynced = true) : Moves g r i .dtack .idle
  | hold (h : (i.dsSynced && i.asSynced) = false) : Moves g r i .dtack .dtack

/-- Every step without a reset is one of the transitions. -/
theorem moves_of_step (hr : i.rstN = true) : Moves g r i r.fsm.state (pFsm g r i).state := by
  unfold pFsm
  rw [hr]
  simp only [Bool.not_true, Bool.false_eq_true, if_false]
  cases hs : r.fsm.state <;> simp only
  case idle =>
    cases hv : (r.addr.valid && r.data.valid) with
    | true =>
      rw [Bool.and_eq_true] at hv
      exact .decode hv.1 hv.2
    | false =>
      simp only [Bool.false_eq_true, if_false]
      exact .wait hv
  case decodeAddr =>
    cases ha : r.addr.valid with
    | false =>
      simp only [Bool.false_eq_true, if_false, hs]
      exact .park (by simp [ha])
    | true =>
      cases hm : r.matched with
      | false => exact .refuse ha hm
      | true =>
        cases hin : g.inRange r.addr.latched with
        | true => exact .accept ha hm hin
        | false =>
          simp only [if_true, Bool.false_eq_true, if_false, hs]
          exact .park (by simp [hm, hin])
  case execCycle => exact .exec
  case waitAck =>
    cases ha : i.masterI.ack with
    | true => exact .answer ha
    | false =>
      cases hd : i.dsSynced with
      | true => exact .abandon ha hd
      | false =>
        cases i.masterI.stall <;> simp only [Bool.false_eq_true, if_false, if_true, hs] <;>
          exact .await ha hd
  case dtack =>
    cases h : (i.dsSynced && i.asSynced) with
    | true =>
      rw [Bool.and_eq_true] at h
      exact .release h.1 h.2
    | false => exact .hold h

/-- A reset leads to `IDLE`. -/
theorem rstN_of_state {st : State} (h : (pFsm g r i).state = st) (hne : st ≠ .idle) :
    i.rstN = true := by
  cases hr : i.rstN with
  | true => rfl
  | false => exact absurd (h.symm.trans (by simp [pFsm, hr])) hne

/-- Every other state is entered by one of the transitions. -/
theorem moves_into {st : State} (h : (pFsm g r i).state = st) (hne : st ≠ .idle) :
    i.rstN = true ∧ Moves g r i r.fsm.state st := by
  have hr := rstN_of_state h hne
  exact ⟨hr, h ▸ moves_of_step hr⟩

theorem decodeAddr_entry (h : (pFsm g r i).state = .decodeAddr) :
    i.rstN = true ∧
      ((r.fsm.state = .idle ∧ r.addr.valid = true ∧ r.data.valid = true) ∨
        r.fsm.state = .decodeAddr) := by
  obtain ⟨hr, hmove⟩ := moves_into h (by decide)
  generalize r.fsm.state = st at hmove ⊢
  cases hmove with
  | decode ha hd => exact ⟨hr, Or.inl ⟨rfl, ha, hd⟩⟩
  | park _ => exact ⟨hr, Or.inr rfl⟩

theorem execCycle_entry (h : (pFsm g r i).state = .execCycle) :
    i.rstN = true ∧ r.fsm.state = .decodeAddr ∧ r.addr.valid = true ∧ r.matched = true ∧
      g.inRange r.addr.latched = true := by
  obtain ⟨hr, hmove⟩ := moves_into h (by decide)
  generalize r.fsm.state = st at hmove ⊢
  cases hmove with
  | accept ha hm hin => exact ⟨hr, rfl, ha, hm, hin⟩

theorem waitAck_entry (h : (pFsm g r i).state = .waitAck) :
    i.rstN = true ∧ (r.fsm.state = .execCycle ∨ r.fsm.state = .waitAck) := by
  obtain ⟨hr, hmove⟩ := moves_into h (by decide)
  generalize r.fsm.state = st at hmove ⊢
  cases hmove with
  | exec => exact ⟨hr, Or.inl rfl⟩
  | await _ _ => exact ⟨hr, Or.inr rfl⟩

theorem dtack_entry (h : (pFsm g r i).state = .dtack) :
    i.rstN = true ∧ (r.fsm.state = .waitAck ∨ r.fsm.state = .dtack) := by
  obtain ⟨hr, hmove⟩ := moves_into h (by decide)
  generalize r.fsm.state = st at hmove ⊢
  cases hmove with
  | answer _ => exact ⟨hr, Or.inl rfl⟩
  | hold _ => exact ⟨hr, Or.inr rfl⟩

/-- A strobe that is not new was there before, and the state machine was not waiting for
the acknowledge of it. -/
theorem stb_step (hstall : i.masterI.stall = false)
    (h : (pFsm g r i).masterO.stb = true) :
    (i.rstN = true ∧ r.fsm.state = .execCycle) ∨
      (r.fsm.masterO.stb = true ∧ (i.rstN = false ∨ r.fsm.state ≠ .waitAck)) := by
  cases hr : i.rstN with
  | false => exact Or.inr ⟨by simpa [pFsm, hr] using h, Or.inl rfl⟩
  | true =>
    unfold pFsm at h
    rw [hr] at h
    simp only [Bool.not_true, Bool.false_eq_true, if_false] at h
    cases hs : r.fsm.state <;> simp only [hs] at h
    case execCycle => exact Or.inl ⟨rfl, rfl⟩
    case waitAck =>
      exfalso
      cases ha : i.masterI.ack <;> cases hd : i.dsSynced <;> simp [ha, hd, hstall] at h
    all_goals (right; refine ⟨?_, Or.inr (by simp)⟩; revert h; (repeat' split) <;> simp)

/-- DTACK is driven low by the state `DTACK`, and taken back in `IDLE`. -/
theorem dtackOe_step (h : (pFsm g r i).vmeDtackOe = true) :
    i.rstN = true ∧ (r.fsm.state = .dtack ∨
      (r.fsm.vmeDtackOe = true ∧ r.fsm.state ≠ .idle ∧ r.fsm.state ≠ .dtack)) := by
  cases hr : i.rstN with
  | false => simp [pFsm, hr] at h
  | true =>
    refine ⟨rfl, ?_⟩
    unfold pFsm at h
    rw [hr] at h
    simp only [Bool.not_true, Bool.false_eq_true, if_false] at h
    cases hs : r.fsm.state <;> simp only [hs] at h
    case idle => exfalso; revert h; split <;> simp
    case dtack => exact Or.inl rfl
    all_goals (right; refine ⟨?_, by simp, by simp⟩; revert h; (repeat' split) <;> simp)

end Transitions

end MiniVme

end Svec.Hdl
