/-
  Carrier/Phases.lean --- the phases of an access to any place of the register block.

  A register answers a write in the cycle after the request, and a read one cycle
  later; the reset register and the ROMs take a cycle more; a submap takes as long as
  it likes.  `Phase` lists what may be going on, `At` gives the control registers, and
  each phase has a lemma that says what it leads to while the host holds the access.
-/
import Svec.Hdl.SvecBaseRegs

set_option autoImplicit false

namespace Svec.Carrier

open Svec.Data Svec.Hdl Svec.Hdl.SvecBaseRegs

/-- What the block is doing. -/
inductive Phase where
  | idle
  /-- A write is about to be decoded. -/
  | writeRequested
  | writeBusy (m : Submap)
  /-- The reset register has been written, and acknowledges. -/
  | resetsWritten
  | readBusy (m : Submap)
  /-- The ROM gives its word. -/
  | metadataRead
  | buildinfoRead
  /-- A read is acknowledged. -/
  | readDone
  deriving DecidableEq, Repr

namespace Phase

/-- A read is in progress. -/
def reading : Phase → Bool
  | readBusy _ | metadataRead | buildinfoRead | readDone => true
  | _ => false

/-- A write is in progress. -/
def writing : Phase → Bool
  | writeRequested | writeBusy _ | resetsWritten => true
  | _ => false

end Phase

/-- The control registers in a phase. -/
structure At (p : Phase) (r : Regs) : Prop where
  wbRip : r.wbRip = p.reading
  wbWip : r.wbWip = p.writing
  rdAckInt : r.rdAckInt = decide (p = .readDone)
  wrReqD0 : r.wrReqD0 = decide (p = .writeRequested)
  rt : ∀ m, r.rt m = decide (p = .readBusy m)
  wt : ∀ m, r.wt m = decide (p = .writeBusy m)
  metadataRack : r.metadataRack = decide (p = .metadataRead)
  metadataWp : r.metadataWp = false
  buildinfoRack : r.buildinfoRack = decide (p = .buildinfoRead)
  buildinfoWp : r.buildinfoWp = false
  csrResetsWack : r.csrResetsWack = decide (p = .resetsWritten)

/-- A reset leaves the block idle; a host finds it so. -/
theorem idle_reset {r : Regs} {i : In} (hrst : i.rstN = false) : At .idle (step r i) := by
  rw [step, if_pos hrst]
  exact ⟨rfl, rfl, rfl, rfl, fun _ => rfl, fun _ => rfl, rfl, rfl, rfl, rfl, rfl⟩

section Signals

variable {p : Phase} {r : Regs} {i : In}

/-- What the block registers of the bus in every cycle. -/
theorem step_bus (hrst : i.rstN = true) : (step r i).wrAdrD0 = i.wbAdr ∧ (step r i).wrDatD0 = i.wb.dat ∧
    (step r i).wrSelD0 = i.wb.sel ∧ (step r i).wbDatO = rdDatD0 r i := by
  have hrunning : ¬ i.rstN = false := by
    rw [hrst]
    decide
  rw [step, if_neg hrunning]
  exact ⟨rfl, rfl, rfl, rfl⟩

theorem At.rdReqInt (h : At p r) : rdReqInt r i = ((i.wbEn && !i.wb.we) && !p.reading) := by
  rw [SvecBaseRegs.rdReqInt, h.wbRip]

/-- What is acknowledged as a write. -/
theorem At.wrAckInt (h : At p r) (hread : SvecBaseRegs.rdReqInt r i = false) :
    wrAckInt r i = match decode r.wrAdrD0 with
      | .csrResets => decide (p = .resetsWritten)
      | .submap m => (i.submapI m).ack && decide (p = .writeBusy m)
      | _ => decide (p = .writeRequested) := by
  unfold SvecBaseRegs.wrAckInt
  cases decode r.wrAdrD0 with
  | metadata => simp [metadataWe, h.wrReqD0, h.metadataWp, hread]
  | buildinfo => simp [buildinfoWe, h.wrReqD0, h.buildinfoWp, hread]
  | csrResets => exact h.csrResetsWack
  | submap m => simp only [submapWack, h.wt]
  | _ => exact h.wrReqD0

/-- A phase that does not write acknowledges no write. -/
theorem At.no_write_ack (h : At p r) (hreq : p ≠ .writeRequested) (hresets : p ≠ .resetsWritten)
    (hbusy : ∀ m, p ≠ .writeBusy m) : SvecBaseRegs.wrAckInt r i = false := by
  unfold SvecBaseRegs.wrAckInt
  cases decode r.wrAdrD0 with
  | metadata => simp [metadataWe, h.wrReqD0, h.metadataWp, hreq]
  | buildinfo => simp [buildinfoWe, h.wrReqD0, h.buildinfoWp, hreq]
  | csrResets => exact h.csrResetsWack.trans (decide_eq_false hresets)
  | submap m => simp [submapWack, h.wt, hbusy]
  | _ => exact h.wrReqD0.trans (decide_eq_false hreq)

/-- What will be acknowledged as a read. -/
theorem At.rdAckD0 (h : At p r) : rdAckD0 r i = match decode i.wbAdr with
      | .metadata => decide (p = .metadataRead)
      | .submap m => (i.submapI m).ack && decide (p = .readBusy m)
      | .buildinfo => decide (p = .buildinfoRead)
      | _ => SvecBaseRegs.rdReqInt r i := by
  unfold SvecBaseRegs.rdAckD0
  cases decode i.wbAdr with
  | metadata => exact h.metadataRack
  | buildinfo => exact h.buildinfoRack
  | submap m => simp only [submapRack, h.rt]
  | _ => rfl

/-- A phase that does not read acknowledges no read. -/
theorem At.no_read_ack (h : At p r) (hread : SvecBaseRegs.rdReqInt r i = false) (hp : p.reading = false) :
    SvecBaseRegs.rdAckD0 r i = false := by
  rw [h.rdAckD0, hread]
  cases decode i.wbAdr <;> cases p <;> simp_all [Phase.reading]

/-- The control registers after a cycle in which no read comes while a write is decoded. -/
theorem At.next (h : At p r) (hrst : i.rstN = true)
    (hapart : p = .writeRequested → SvecBaseRegs.rdReqInt r i = false) (q : Phase)
    (hrip : ((p.reading || (i.wbEn && !i.wb.we)) && !decide (p = .readDone)) = q.reading)
    (hwip : ((p.writing || (i.wbEn && i.wb.we)) && !SvecBaseRegs.wrAckInt r i) = q.writing)
    (hrdAck : SvecBaseRegs.rdAckD0 r i = decide (q = .readDone))
    (hwrReq : ((i.wbEn && i.wb.we) && !p.writing) = decide (q = .writeRequested))
    (hrt : ∀ m, ((decide (p = .readBusy m) ||
        (decide (decode i.wbAdr = .submap m) && SvecBaseRegs.rdReqInt r i)) &&
          !((i.submapI m).ack && decide (p = .readBusy m))) = decide (q = .readBusy m))
    (hwt : ∀ m, ((decide (p = .writeBusy m) ||
        (decide (decode r.wrAdrD0 = .submap m) && decide (p = .writeRequested))) &&
          !((i.submapI m).ack && decide (p = .writeBusy m))) = decide (q = .writeBusy m))
    (hmetadata : ((decide (decode i.wbAdr = .metadata) && SvecBaseRegs.rdReqInt r i) &&
      !decide (p = .metadataRead)) = decide (q = .metadataRead))
    (hbuildinfo : ((decide (decode i.wbAdr = .buildinfo) && SvecBaseRegs.rdReqInt r i) &&
      !decide (p = .buildinfoRead)) = decide (q = .buildinfoRead))
    (hresets : (decide (decode r.wrAdrD0 = .csrResets) && decide (p = .writeRequested)) =
      decide (q = .resetsWritten)) : At q (step r i) := by
  have hrunning : ¬ i.rstN = false := by
    rw [hrst]
    decide
  have hpending : (decide (p = .writeRequested) && SvecBaseRegs.rdReqInt r i) = false := by
    by_cases hp : p = .writeRequested
    · rw [hapart hp, Bool.and_false]
    · rw [decide_eq_false hp, Bool.false_and]
  rw [step, if_neg hrunning]
  refine ⟨?_, ?_, hrdAck, ?_, fun m => ?_, fun m => ?_, ?_, ?_, ?_, ?_, ?_⟩
  · simp only [h.wbRip, h.rdAckInt, hrip]
  · simp only [h.wbWip, hwip]
  · simp only [SvecBaseRegs.wrReqInt, h.wbWip, hwrReq]
  · simp only [submapRe, submapRack, h.rt, hrt]
  · simp only [submapWe, submapWack, h.wt, h.wrReqD0, hwt]
  · simp only [metadataRe, h.metadataRack, hmetadata]
  · simp only [h.wrReqD0, h.metadataWp, Bool.or_false, hpending]
  · simp only [buildinfoRe, h.buildinfoRack, hbuildinfo]
  · simp only [h.wrReqD0, h.buildinfoWp, Bool.or_false, hpending]
  · simp only [csrResetsWreq, h.wrReqD0, hresets]

end Signals

/-! ## From phase to phase -/

section Phases

variable {r : Regs} {i : In} {m : Submap}

/-- What a read leads to. -/
def readPhase : Place → Phase
  | .metadata => .metadataRead
  | .buildinfo => .buildinfoRead
  | .submap m => .readBusy m
  | _ => .readDone

/-- What a write leads to once it is decoded. -/
def writePhase : Place → Phase
  | .csrResets => .resetsWritten
  | .submap m => .writeBusy m
  | _ => .idle

theorem At.stays (h : At .idle r) (hrst : i.rstN = true) (hen : i.wbEn = false) :
    At .idle (step r i) ∧ ackInt r i = false := by
  have hread : SvecBaseRegs.rdReqInt r i = false := by simp [SvecBaseRegs.rdReqInt, hen]
  have hwrite : SvecBaseRegs.wrAckInt r i = false := h.no_write_ack (by simp) (by simp) (by simp)
  have hanswer : SvecBaseRegs.rdAckD0 r i = false := h.no_read_ack hread rfl
  refine ⟨h.next hrst (fun _ => hread) .idle ?_ ?_ ?_ ?_ ?_ ?_ ?_ ?_ ?_, ?_⟩ <;>
    simp [hen, hread, hwrite, hanswer, Phase.reading, Phase.writing, ackInt, h.rdAckInt]

theorem At.write (h : At .idle r) (hrst : i.rstN = true) (hen : i.wbEn = true) (hwe : i.wb.we = true) :
    At .writeRequested (step r i) ∧ ackInt r i = false := by
  have hread : SvecBaseRegs.rdReqInt r i = false := by simp [SvecBaseRegs.rdReqInt, hwe]
  have hwrite : SvecBaseRegs.wrAckInt r i = false := h.no_write_ack (by simp) (by simp) (by simp)
  have hanswer : SvecBaseRegs.rdAckD0 r i = false := h.no_read_ack hread rfl
  refine ⟨h.next hrst (fun _ => hread) .writeRequested ?_ ?_ ?_ ?_ ?_ ?_ ?_ ?_ ?_, ?_⟩ <;>
    simp [hen, hwe, hread, hwrite, hanswer, Phase.reading, Phase.writing, ackInt, h.rdAckInt]

theorem At.read (h : At .idle r) (hrst : i.rstN = true) (hen : i.wbEn = true) (hwe : i.wb.we = false) :
    At (readPhase (decode i.wbAdr)) (step r i) ∧ ackInt r i = false := by
  have hread : SvecBaseRegs.rdReqInt r i = true := by simp [h.rdReqInt, hen, hwe, Phase.reading]
  have hwrite : SvecBaseRegs.wrAckInt r i = false := h.no_write_ack (by simp) (by simp) (by simp)
  have hanswer := h.rdAckD0 (i := i)
  refine ⟨h.next hrst (by simp) _ ?_ ?_ ?_ ?_ ?_ ?_ ?_ ?_ ?_, ?_⟩
  all_goals cases hdec : decode i.wbAdr <;>
    simp_all [readPhase, Phase.reading, Phase.writing, ackInt, h.rdAckInt]

/-- The write is decoded; a register answers. -/
theorem At.decoded (h : At .writeRequested r) (hrst : i.rstN = true) (hen : i.wbEn = true)
    (hwe : i.wb.we = true) : At (writePhase (decode r.wrAdrD0)) (step r i) ∧
      ackInt r i = decide (writePhase (decode r.wrAdrD0) = .idle) := by
  have hread : SvecBaseRegs.rdReqInt r i = false := by simp [SvecBaseRegs.rdReqInt, hwe]
  have hwrite := h.wrAckInt hread
  have hanswer : SvecBaseRegs.rdAckD0 r i = false := h.no_read_ack hread rfl
  refine ⟨h.next hrst (fun _ => hread) _ ?_ ?_ ?_ ?_ ?_ ?_ ?_ ?_ ?_, ?_⟩
  all_goals cases hdec : decode r.wrAdrD0 <;>
    simp_all [writePhase, Phase.reading, Phase.writing, ackInt, h.rdAckInt]

/-- The reset register answers. -/
theorem At.resets_answer (h : At .resetsWritten r) (hrst : i.rstN = true) (hen : i.wbEn = true)
    (hwe : i.wb.we = true) (hdec : decode r.wrAdrD0 = .csrResets) :
    At .idle (step r i) ∧ ackInt r i = true := by
  have hread : SvecBaseRegs.rdReqInt r i = false := by simp [SvecBaseRegs.rdReqInt, hwe]
  have hwrite : SvecBaseRegs.wrAckInt r i = true := by
    rw [h.wrAckInt hread, hdec]
    rfl
  have hanswer : SvecBaseRegs.rdAckD0 r i = false := h.no_read_ack hread rfl
  refine ⟨h.next hrst (fun _ => hread) .idle ?_ ?_ ?_ ?_ ?_ ?_ ?_ ?_ ?_, ?_⟩ <;>
    simp [hen, hwe, hread, hwrite, hanswer, Phase.reading, Phase.writing, ackInt, h.rdAckInt]

/-- A write of a submap goes on until the submap acknowledges, and is answered then. -/
theorem At.write_goes_on (h : At (.writeBusy m) r) (hrst : i.rstN = true) (hen : i.wbEn = true)
    (hwe : i.wb.we = true) (hdec : decode r.wrAdrD0 = .submap m) :
    At (if (i.submapI m).ack then .idle else .writeBusy m) (step r i) ∧
      ackInt r i = (i.submapI m).ack := by
  have hread : SvecBaseRegs.rdReqInt r i = false := by simp [SvecBaseRegs.rdReqInt, hwe]
  have hwrite : SvecBaseRegs.wrAckInt r i = (i.submapI m).ack := by
    rw [h.wrAckInt hread, hdec]
    simp
  have hanswer : SvecBaseRegs.rdAckD0 r i = false := h.no_read_ack hread rfl
  refine ⟨h.next hrst (fun _ => hread) _ ?_ ?_ ?_ ?_ ?_ ?_ ?_ ?_ ?_, ?_⟩
  all_goals cases hack : (i.submapI m).ack <;>
    simp_all [Phase.reading, Phase.writing, ackInt, h.rdAckInt]

/-- A read of a submap goes on until the submap acknowledges, and is answered a cycle later. -/
theorem At.read_goes_on (h : At (.readBusy m) r) (hrst : i.rstN = true) (hwe : i.wb.we = false)
    (hdec : decode i.wbAdr = .submap m) :
    At (if (i.submapI m).ack then .readDone else .readBusy m) (step r i) ∧ ackInt r i = false := by
  have hread : SvecBaseRegs.rdReqInt r i = false := by simp [h.rdReqInt, Phase.reading]
  have hwrite : SvecBaseRegs.wrAckInt r i = false := h.no_write_ack (by simp) (by simp) (by simp)
  have hanswer := h.rdAckD0 (i := i)
  refine ⟨h.next hrst (by simp) _ ?_ ?_ ?_ ?_ ?_ ?_ ?_ ?_ ?_, ?_⟩
  all_goals cases hack : (i.submapI m).ack <;>
    simp_all [Phase.reading, Phase.writing, ackInt, h.rdAckInt]

/-- A ROM answers in the cycle after the request. -/
theorem At.rom_answers (h : At (readPhase (decode i.wbAdr)) r) (hrst : i.rstN = true) (hwe : i.wb.we = false)
    (hrom : decode i.wbAdr = .metadata ∨ decode i.wbAdr = .buildinfo) :
    At .readDone (step r i) ∧ ackInt r i = false := by
  have hanswer := h.rdAckD0 (i := i)
  rcases hrom with hdec | hdec
  all_goals
    rw [hdec, readPhase] at h
    have hread : SvecBaseRegs.rdReqInt r i = false := by simp [h.rdReqInt, Phase.reading]
    have hwrite : SvecBaseRegs.wrAckInt r i = false := h.no_write_ack (by simp) (by simp) (by simp)
    refine ⟨h.next hrst (by simp) _ ?_ ?_ ?_ ?_ ?_ ?_ ?_ ?_ ?_, ?_⟩ <;>
      simp_all [readPhase, Phase.reading, Phase.writing, ackInt, h.rdAckInt]

theorem At.done (h : At .readDone r) (hrst : i.rstN = true) (hwe : i.wb.we = false) :
    At .idle (step r i) ∧ ackInt r i = true := by
  have hread : SvecBaseRegs.rdReqInt r i = false := by simp [h.rdReqInt, Phase.reading]
  have hwrite : SvecBaseRegs.wrAckInt r i = false := h.no_write_ack (by simp) (by simp) (by simp)
  have hanswer : SvecBaseRegs.rdAckD0 r i = false := by
    rw [h.rdAckD0, hread]
    cases decode i.wbAdr <;> simp
  refine ⟨h.next hrst (by simp) .idle ?_ ?_ ?_ ?_ ?_ ?_ ?_ ?_ ?_, ?_⟩ <;>
    simp [hwe, hread, hwrite, hanswer, Phase.reading, Phase.writing, ackInt, h.rdAckInt]

end Phases

end Svec.Carrier
