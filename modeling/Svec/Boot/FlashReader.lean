/-
  Boot/FlashReader.lean --- the flash controller reads consecutive bytes.

  What the controller has told the flash is followed byte by byte: after "set
  address" it deselects the flash, sends the command, the address and a dummy
  byte, and every "read" from then on fetches the next byte.  Each stage is a
  predicate on the controller and the link; the lemmas say which stage the next
  cycle is in, however long a transfer takes.
-/
import Svec.Hdl.SpiFlash

set_option autoImplicit false

namespace Svec.Boot.FlashReader

open Svec.Data Svec.Hdl
open Svec.Hdl.M25pFlash (Regs In)

/-- A cycle of the controller and the link, with no access of the host. -/
structure Cycle (content : BitVec 24 → Byte) (m : Regs) (i : In) (l l' : SpiLink) : Prop where
  rstN : i.rstN = true
  noLoad : i.far.dataLoad = false
  ready : i.spiReady = (decide (l.busy = 0) && !m.spiStart)
  data : l.busy = 0 → i.spiRdata = l.received
  link : ∃ miso, LinkStep content ⟨true, m.spiCs, m.spiStart, m.spiWdata, miso⟩ l l'

/-! ## The stages -/

/-- The controller takes a request. -/
def Idle (m : Regs) : Prop := m.state = .idle ∧ m.spiStart = false

/-- The byte `b` goes out to a flash that has received `c`: it is offered to the master, or
the flash has it. -/
def Sending (m : Regs) (l : SpiLink) (c : FlashCommand) (b : Byte) : Prop :=
  m.spiCs = true ∧
    ((m.spiStart = true ∧ l.busy = 0 ∧ m.spiWdata = b ∧ l.command = c) ∨
      (m.spiStart = false ∧ l.command = c.receive b))

/-- The controller is on its way to the address `a`. -/
def Seeking (m : Regs) (l : SpiLink) (a : BitVec 24) : Prop :=
  m.readyInt = false ∧
    match m.state with
    | .csel => m.spiCs = false
    | .command => Sending m l .none 0x0b#8
    | .addr0 => Sending m l .read0 (a.extractLsb' 16 8)
    | .addr1 => Sending m l (.read1 (a.extractLsb' 16 8)) (a.extractLsb' 8 8)
    | .addr2 => Sending m l (.read2 (a.extractLsb' 16 8) (a.extractLsb' 8 8)) (a.extractLsb' 0 8)
    | .dummyXfer => Sending m l (.dummy a) 0#8
    | _ => False

/-- The next byte that the flash will send is the one at `a`. -/
structure At (m : Regs) (l : SpiLink) (a : BitVec 24) : Prop where
  idle : Idle m
  cs : m.spiCs = true
  busy : l.busy = 0
  command : l.command = .stream a

/-- The controller reads the byte at `a`. -/
structure Reading (content : BitVec 24 → Byte) (m : Regs) (l : SpiLink) (a : BitVec 24) : Prop where
  state : m.state = .data
  notReady : m.readyInt = false
  cs : m.spiCs = true
  transfer : (m.spiStart = true ∧ l.busy = 0 ∧ l.command = .stream a) ∨
    (m.spiStart = false ∧ l.command = .stream (a + 1#24) ∧ l.received = content a)

/-! ## From stage to stage -/

section Stages

variable {content : BitVec 24 → Byte} {m : Regs} {i : In} {l l' : SpiLink} {a : BitVec 24}

/-- Without a start the link keeps what it has. -/
theorem link_hold (h : Cycle content m i l l') (hs : m.spiStart = false) :
    l'.busy = l.busy - 1 ∧ l'.received = l.received ∧ (m.spiCs = true → l'.command = l.command) := by
  obtain ⟨miso, hlink⟩ := h.link
  have hno : ¬ l.Starts ⟨true, m.spiCs, m.spiStart, m.spiWdata, miso⟩ := by
    rintro ⟨-, hstart⟩
    exact Bool.false_ne_true (hs.symm.trans hstart)
  exact ⟨hlink.busy_count hno, hlink.received_hold hno, fun hc => hlink.command_hold hc hno⟩

/-- A byte that is offered to a master that is not busy goes to the flash. -/
theorem link_start (h : Cycle content m i l l') (hs : m.spiStart = true) (hb : l.busy = 0)
    (hc : m.spiCs = true) :
    l'.command = l.command.receive m.spiWdata ∧
      ∀ b, l.command = .stream b → l'.received = content b := by
  obtain ⟨miso, hlink⟩ := h.link
  have hyes : l.Starts ⟨true, m.spiCs, m.spiStart, m.spiWdata, miso⟩ := ⟨hb, hs⟩
  exact ⟨hlink.command_start hc hyes, fun b => hlink.received_stream b hc hyes⟩

/-- The flash has the byte when the master is ready again. -/
theorem sending_done {c : FlashCommand} {b : Byte} (h : Cycle content m i l l')
    (hsend : Sending m l c b) (hready : i.spiReady = true) :
    m.spiStart = false ∧ l'.busy = 0 ∧ l'.command = c.receive b := by
  rw [h.ready, Bool.and_eq_true, decide_eq_true_eq, Bool.not_eq_true'] at hready
  obtain ⟨hb, hs⟩ := hready
  obtain ⟨hcs, ⟨hs', -⟩ | ⟨-, hcom⟩⟩ := hsend
  · rw [hs] at hs'
    exact absurd hs' (by decide)
  · obtain ⟨hbusy, -, hcommand⟩ := link_hold h hs
    exact ⟨hs, by omega, (hcommand hcs).trans hcom⟩

/-- Until then the byte is on its way. -/
theorem sending_wait {c : FlashCommand} {b : Byte} (h : Cycle content m i l l')
    (hsend : Sending m l c b) : l'.command = c.receive b := by
  obtain ⟨hcs, ⟨hs, hb, hw, hcom⟩ | ⟨hs, hcom⟩⟩ := hsend
  · rw [(link_start h hs hb hcs).1, hcom, hw]
  · exact ((link_hold h hs).2.2 hcs).trans hcom

/-- The step of a state that sends a byte: wait for the master, then go on with the next. -/
theorem seeking_send {c : FlashCommand} {b : Byte} (b' : Byte) (m' : Regs)
    (h : Cycle content m i l l') (hsend : Sending m l c b)
    (hwait : i.spiReady = false → m'.spiCs = m.spiCs ∧ m'.spiStart = false)
    (hnext : i.spiReady = true → m'.spiCs = m.spiCs ∧ m'.spiStart = true ∧ m'.spiWdata = b') :
    (i.spiReady = false → Sending m' l' c b) ∧ (i.spiReady = true → Sending m' l' (c.receive b) b') := by
  constructor
  · intro hready
    obtain ⟨hcs, hs⟩ := hwait hready
    exact ⟨hcs.trans hsend.1, Or.inr ⟨hs, sending_wait h hsend⟩⟩
  · intro hready
    obtain ⟨hcs, hs, hw⟩ := hnext hready
    obtain ⟨-, hb, hcom⟩ := sending_done h hsend hready
    exact ⟨hcs.trans hsend.1, Or.inl ⟨hs, hb, hw, hcom⟩⟩

/-- One step of a controller that the host leaves alone. -/
theorem step_running (h : Cycle content m i l l') : M25pFlash.step m i =
    { M25pFlash.pMainFsm m i with spiStartHost := false, spiWdataHost := m.spiWdataHost } := by
  simp [M25pFlash.step, M25pFlash.pHostSpiRegisters, h.rstN, h.noLoad]

/-- On the way to the address, and there. -/
theorem seeking_step (h : Cycle content m i l l') (hseek : Seeking m l a) (haddr : i.addr = a) :
    Seeking (M25pFlash.step m i) l' a ∨ At (M25pFlash.step m i) l' a := by
  obtain ⟨hint, hstage⟩ := hseek
  -- What the step does in a state that sends a byte.
  have hsend : ∀ {c b} b', Sending m l c b →
      (i.spiReady = false → (M25pFlash.step m i).spiCs = m.spiCs ∧
        (M25pFlash.step m i).spiStart = false) →
      (i.spiReady = true → (M25pFlash.step m i).spiCs = m.spiCs ∧
        (M25pFlash.step m i).spiStart = true ∧ (M25pFlash.step m i).spiWdata = b') →
      (i.spiReady = false → Sending (M25pFlash.step m i) l' c b) ∧
        (i.spiReady = true → Sending (M25pFlash.step m i) l' (c.receive b) b') :=
    fun b' => seeking_send b' (M25pFlash.step m i) h
  revert hsend
  unfold Seeking
  rw [step_running h]
  unfold M25pFlash.pMainFsm
  rw [h.rstN, h.noLoad]
  simp only [Bool.not_true, Bool.false_eq_true, if_false]
  cases hs : m.state <;> simp only [hs] at hstage <;> intro hsend
  case csel =>
    left
    cases hready : i.spiReady with
    | false => simp [hint, hstage]
    | true =>
      have hr := hready
      rw [h.ready, Bool.and_eq_true, decide_eq_true_eq, Bool.not_eq_true'] at hr
      obtain ⟨miso, hlink⟩ := h.link
      have hcom := hlink.command_none hstage
      have hbusy := (link_hold h hr.2).1
      simp [hint, Sending, hcom, hbusy, hr.1]
  case command =>
    left
    have := hsend (a.extractLsb' 16 8) hstage (fun hr => by simp [hr]) (fun hr => by simp [hr, haddr])
    cases hready : i.spiReady with
    | false => simpa [hs, hint, hready] using this.1 hready
    | true => simpa [hint, hready, haddr, FlashCommand.receive] using this.2 hready
  case addr0 =>
    left
    have := hsend (a.extractLsb' 8 8) hstage (fun hr => by simp [hr]) (fun hr => by simp [hr, haddr])
    cases hready : i.spiReady with
    | false => simpa [hs, hint, hready] using this.1 hready
    | true => simpa [hint, hready, haddr, FlashCommand.receive] using this.2 hready
  case addr1 =>
    left
    have := hsend (a.extractLsb' 0 8) hstage (fun hr => by simp [hr]) (fun hr => by simp [hr, haddr])
    cases hready : i.spiReady with
    | false => simpa [hs, hint, hready] using this.1 hready
    | true => simpa [hint, hready, haddr, FlashCommand.receive] using this.2 hready
  case addr2 =>
    left
    have := hsend 0#8 hstage (fun hr => by simp [hr]) (fun hr => by simp [hr])
    cases hready : i.spiReady with
    | false => simpa [hs, hint, hready] using this.1 hready
    | true =>
      have hsent := this.2 hready
      rw [FlashCommand.receive, address_bytes] at hsent
      simpa [hint, hready] using hsent
  case dummyXfer =>
    cases hready : i.spiReady with
    | false =>
      left
      have hwait := sending_wait h hstage
      simpa [hs, hint, Sending, hstage.1] using hwait
    | true =>
      right
      obtain ⟨-, hb, hcom⟩ := sending_done h hstage hready
      exact ⟨⟨rfl, rfl⟩, hstage.1, hb, hcom⟩

/-- "Set address" is taken in `IDLE`. -/
theorem seeking_of_setAddr (h : Cycle content m i l l') (hidle : Idle m) (hset : i.setAddr = true) :
    Seeking (M25pFlash.step m i) l' a := by
  simp [step_running h, M25pFlash.pMainFsm, h.rstN, h.noLoad, hidle.1, hset, Seeking]

/-- So is "read". -/
theorem reading_of_read (h : Cycle content m i l l') (hat : At m l a) (hset : i.setAddr = false)
    (hread : i.read = true) :
    Reading content (M25pFlash.step m i) l' a ∧ (M25pFlash.step m i).spiStart = true := by
  obtain ⟨hbusy, -, hcom⟩ := link_hold h hat.idle.2
  rw [step_running h]
  refine ⟨⟨?_, ?_, ?_, Or.inl ⟨?_, ?_, (hcom hat.cs).trans hat.command⟩⟩, ?_⟩
  all_goals simp [M25pFlash.pMainFsm, h.rstN, h.noLoad, hat.idle.1, hset, hread, hat.cs, hat.busy, hbusy]

/-- Without a request the controller stays, and gets ready. -/
theorem idle_step (h : Cycle content m i l l') (hidle : Idle m) (hset : i.setAddr = false)
    (hread : i.read = false) :
    Idle (M25pFlash.step m i) ∧ (M25pFlash.step m i).spiCs = m.spiCs := by
  rw [step_running h]
  simp [M25pFlash.pMainFsm, h.rstN, h.noLoad, hidle.1, hset, hread, Idle]

theorem at_step (h : Cycle content m i l l') (hat : At m l a) (hset : i.setAddr = false)
    (hread : i.read = false) : At (M25pFlash.step m i) l' a := by
  obtain ⟨hidle, hcs⟩ := idle_step h hat.idle hset hread
  obtain ⟨hbusy, -, hcom⟩ := link_hold h hat.idle.2
  have := hat.busy
  exact ⟨hidle, hcs.trans hat.cs, by omega, (hcom hat.cs).trans hat.command⟩

/-- The byte read is there when the controller is ready again. -/
theorem reading_step (h : Cycle content m i l l') (hread : Reading content m l a) :
    (Reading content (M25pFlash.step m i) l' a ∧ (M25pFlash.step m i).spiStart = false) ∨
      (m.spiStart = false ∧ At (M25pFlash.step m i) l' (a + 1#24) ∧
        (M25pFlash.step m i).readyInt = true ∧ (M25pFlash.step m i).dataO = content a) := by
  obtain ⟨hstate, -, hcs, htransfer⟩ := hread
  rw [step_running h]
  cases hready : i.spiReady with
  | false =>
    left
    have hnext : l'.command = .stream (a + 1#24) ∧ l'.received = content a := by
      rcases htransfer with ⟨hs, hb, hcom⟩ | ⟨hs, hcom, hrec⟩
      · obtain ⟨hcom', hrec'⟩ := link_start h hs hb hcs
        rw [hcom] at hcom'
        exact ⟨hcom', hrec' a hcom⟩
      · obtain ⟨-, hrec', hcom'⟩ := link_hold h hs
        exact ⟨(hcom' hcs).trans hcom, hrec'.trans hrec⟩
    refine ⟨⟨?_, ?_, ?_, Or.inr ⟨?_, hnext⟩⟩, ?_⟩
    all_goals simp [M25pFlash.pMainFsm, h.rstN, h.noLoad, hstate, hready, hcs]
  | true =>
    right
    have hr := hready
    rw [h.ready, Bool.and_eq_true, decide_eq_true_eq, Bool.not_eq_true'] at hr
    obtain ⟨hb, hs⟩ := hr
    rcases htransfer with ⟨hs', -⟩ | ⟨-, hcom, hrec⟩
    · exact absurd hs' (by rw [hs]; decide)
    · obtain ⟨hbusy, -, hcom'⟩ := link_hold h hs
      have hdata := (h.data hb).trans hrec
      refine ⟨hs, ⟨⟨?_, ?_⟩, ?_, ?_, (hcom' hcs).trans hcom⟩, ?_, ?_⟩
      all_goals simp [M25pFlash.pMainFsm, h.rstN, h.noLoad, hstate, hready, hcs, hdata, hbusy, hb]

/-! ## Requests -/

/-- "Set address" to `a` was requested: the pulse is still up, or the controller is on its way
or there. -/
def Positioning (m : Regs) (l : SpiLink) (a : BitVec 24) (setAddr read : Bool) : Prop :=
  read = false ∧ ((setAddr = true ∧ Idle m) ∨ (setAddr = false ∧ (Seeking m l a ∨ At m l a)))

/-- A read of the byte at `a` was requested: the pulse is still up, or the controller reads,
or it has the byte. -/
def Fetching (content : BitVec 24 → Byte) (m : Regs) (l : SpiLink) (a : BitVec 24)
    (setAddr read : Bool) : Prop :=
  setAddr = false ∧ ((read = true ∧ At m l a) ∨ (read = false ∧ (Reading content m l a ∨
    (At m l (a + 1#24) ∧ m.readyInt = true ∧ m.dataO = content a))))

theorem readyO_eq_true {setAddr read : Bool} (h : M25pFlash.readyO m setAddr read = true) :
    m.readyInt = true ∧ setAddr = false ∧ read = false := by
  simpa [M25pFlash.readyO] using h

theorem positioning_step (h : Cycle content m i l l') (haddr : i.addr = a)
    (hpos : Positioning m l a i.setAddr i.read) :
    (M25pFlash.readyO m i.setAddr i.read = false →
      Positioning (M25pFlash.step m i) l' a false false) ∧
      (M25pFlash.readyO m i.setAddr i.read = true →
        i.setAddr = false ∧ At (M25pFlash.step m i) l' a) := by
  obtain ⟨hread, ⟨hset, hidle⟩ | ⟨hset, hseek | hat⟩⟩ := hpos
  · refine ⟨fun _ => ⟨rfl, Or.inr ⟨rfl, Or.inl (seeking_of_setAddr h hidle hset)⟩⟩, fun hready => ?_⟩
    have := (readyO_eq_true hready).2.1
    rw [hset] at this
    exact absurd this (by decide)
  · refine ⟨fun _ => ⟨rfl, Or.inr ⟨rfl, seeking_step h hseek haddr⟩⟩, fun hready => ?_⟩
    have := (readyO_eq_true hready).1
    rw [hseek.1] at this
    exact absurd this (by decide)
  · have hat' := at_step h hat hset hread
    exact ⟨fun _ => ⟨rfl, Or.inr ⟨rfl, Or.inr hat'⟩⟩, fun _ => ⟨hset, hat'⟩⟩

theorem fetching_step (h : Cycle content m i l l')
    (hfetch : Fetching content m l a i.setAddr i.read) :
    (M25pFlash.readyO m i.setAddr i.read = false →
      Fetching content (M25pFlash.step m i) l' a false false) ∧
      (M25pFlash.readyO m i.setAddr i.read = true →
        i.setAddr = false ∧ m.dataO = content a ∧ At (M25pFlash.step m i) l' (a + 1#24)) := by
  obtain ⟨hset, ⟨hread, hat⟩ | ⟨hread, hreading | ⟨hat, hint, hdata⟩⟩⟩ := hfetch
  · refine ⟨fun _ => ⟨rfl, Or.inr ⟨rfl, Or.inl (reading_of_read h hat hset hread).1⟩⟩, fun hready => ?_⟩
    have := (readyO_eq_true hready).2.2
    rw [hread] at this
    exact absurd this (by decide)
  · constructor
    · intro _
      rcases reading_step h hreading with ⟨hr, -⟩ | ⟨-, hdone⟩
      · exact ⟨rfl, Or.inr ⟨rfl, Or.inl hr⟩⟩
      · exact ⟨rfl, Or.inr ⟨rfl, Or.inr hdone⟩⟩
    · intro hready
      have := (readyO_eq_true hready).1
      rw [hreading.notReady] at this
      exact absurd this (by decide)
  · refine ⟨fun hready => ?_, fun _ => ⟨hset, hdata, at_step h hat hset hread⟩⟩
    simp [M25pFlash.readyO, hint, hset, hread] at hready

end Stages

end Svec.Boot.FlashReader
