/-
  Ddr/Page.lean --- the DDR pages are memories behind a cursor.

  Slot by slot a host gets from the carrier what two memories behind cursors return,
  and each access to a page is one request at the port of its bank, however long the
  controllers take.  The cursors are words: after 2^30 accesses they are where they
  started.
-/
import Svec.Ddr.System

set_option autoImplicit false

namespace Svec.Ddr

open Svec.Data Svec.Sync Svec.Hdl Svec.Hdl.SvecBaseRegs Svec.Hdl.SvecBaseWr
open Svec.Carrier (At readPhase writePhase step_bus)

section Run

variable {s₀ : Sys} {env : ℕ → SvecBaseWr.In} {cell₀ : Bank → Word → Word}

/-! ## Slot by slot -/

/-- Between two slots: the block is idle, and the memories are as they should be. -/
structure Between (s₀ : Sys) (env : ℕ → SvecBaseWr.In) (cell₀ : Bank → Word → Word) (t : ℕ)
    (m : Bank → CursorMem Word) (n : Bank → ℕ) : Prop where
  idle : Idle (regsAt s₀ env t).base
  holds : Holds s₀ env cell₀ t m n

/-- The requests after one more access. -/
def countWith (n : Bank → ℕ) (op : CursorOp Bank Word) (b : Bank) : ℕ :=
  n b + if op.touches b then 1 else 0

section Slot

variable {t : ℕ} {b : Bank} {m : Bank → CursorMem Word} {n : Bank → ℕ} {rest : List Slot}

/-- What an idle cycle keeps. -/
theorem Between.kept (h : Between s₀ env cell₀ t m n) (hctrl : Served s₀ env cell₀) :
    Holds s₀ env cell₀ (t + 1) m n :=
  h.holds.stays hctrl h.idle rfl (csrDdrAddrWreq_of_at h.idle (by simp))

theorem Between.pause (h : Between s₀ env cell₀ t m n) (hctrl : Served s₀ env cell₀) {l : WbMasterOut}
    (hscript : (hostAt s₀ env t).script = .pause l :: rest) :
    Between s₀ env cell₀ (t + 1) m n ∧ hostAt s₀ env (t + 1) = ⟨rest, (hostAt s₀ env t).answers⟩ := by
  have hen : (baseAt s₀ env t).wbEn = false := by
    show ((hostAt s₀ env t).lines.cyc && (hostAt s₀ env t).lines.stb) = false
    rw [Host.lines, hscript]
    exact Bool.and_false _
  refine ⟨⟨(h.idle.stays rfl hen).1, h.kept hctrl⟩, ?_⟩
  show (hostAt s₀ env t).next (carrierWbOut _ _) = _
  rw [Host.next, hscript]

/-- The first cycle of a write. -/
theorem Between.requests (h : Between s₀ env cell₀ t m n) (hctrl : Served s₀ env cell₀) {a : Access}
    (hscript : (hostAt s₀ env t).script = .access a :: rest) (hen : (a.lines.cyc && a.lines.stb) = true)
    (hwe : a.lines.we = true) :
    At .writeRequested (regsAt s₀ env (t + 1)).base ∧ Holds s₀ env cell₀ (t + 1) m n ∧
      hostAt s₀ env (t + 1) = hostAt s₀ env t ∧
      (regsAt s₀ env (t + 1)).base.wrAdrD0 = a.lines.adr.extractLsb' 2 12 ∧
      (regsAt s₀ env (t + 1)).base.wrDatD0 = a.lines.dat := by
  have hwb := wb_access hscript
  obtain ⟨hadr, hdat, -, -⟩ := step_bus (r := (regsAt s₀ env t).base) (i := baseAt s₀ env t) rfl
  obtain ⟨hreq, hnack⟩ := h.idle.write (i := baseAt s₀ env t) rfl (by rw [In.wbEn, hwb, hen]) (by rw [hwb, hwe])
  refine ⟨hreq, h.kept hctrl, host_stays hscript hnack, ?_, ?_⟩
  · rw [base_succ, hadr, In.wbAdr, hwb]
  · rw [base_succ, hdat, hwb]

/-- The address is set in the second cycle of the access. -/
theorem Between.writeAddr (h : Between s₀ env cell₀ t m n) (hctrl : Served s₀ env cell₀) {a : Word}
    (hscript : (hostAt s₀ env t).script = .access (.writeAddr b a) :: rest) :
    Between s₀ env cell₀ (t + 2) (CursorOp.effect nextWord m (.seek b a)) n ∧
      hostAt s₀ env (t + 2) = ⟨rest, (hostAt s₀ env t).answers ++ [none]⟩ := by
  obtain ⟨hreq, hholds, hhost, hadr, hdat⟩ := h.requests hctrl hscript rfl rfl
  have hdec : decode (regsAt s₀ env (t + 1)).base.wrAdrD0 = .csrDdrAddr b := by
    rw [hadr]
    exact decode_ddrAddr b
  have hscript' : (hostAt s₀ env (t + 1)).script = .access (.writeAddr b a) :: rest := by rw [hhost, hscript]
  have hwb := wb_access hscript'
  obtain ⟨hidle, hack⟩ := hreq.decoded (i := baseAt s₀ env (t + 1)) rfl
    (by rw [In.wbEn, hwb]; rfl) (by rw [hwb]; rfl)
  rw [hdec] at hidle hack
  obtain ⟨hnack, -, hsettled⟩ := hholds.quiet hctrl hreq rfl
  refine ⟨⟨hidle, fun b' => ?_, fun b' => ?_⟩, ?_⟩
  · have hwreq : csrDdrAddrWreq (regsAt s₀ env (t + 1)).base b' = decide (b = b') := by
      simp [csrDdrAddrWreq, hdec, hreq.wrReqD0]
    rw [csr_succ, hwreq, hnack, hdat, hholds.cursor]
    by_cases hb : b = b'
    · subst hb
      simp [CursorOp.effect, Access.lines]
    · simp [CursorOp.effect, hb, Function.update_of_ne (Ne.symm hb)]
  · by_cases hb : b' = b
    · subst hb
      simpa [CursorOp.effect] using hsettled b'
    · simpa [CursorOp.effect, Function.update_of_ne hb] using hsettled b'
  · rw [host_moves hscript' hack, hhost]
    rfl

/-- A request that writes is a `put`, once it is acknowledged. -/
theorem effect_write {p : DdrPort} {w : Word} (hwe : p.we = true) (haddr : p.addr = (m b).cursor)
    (hdata : p.data = w) (hsel : p.sel = 0xf#4) :
    CursorOp.effect nextWord (Function.update m b ⟨(m b).cursor, perform p (m b).cell⟩) (.get b) =
      CursorOp.effect nextWord m (.put b w) := by
  simp [CursorOp.effect, perform, hwe, haddr, hdata, hsel, selectBytes_all]

/-- A request that reads is a `get`. -/
theorem effect_read {p : DdrPort} (hwe : p.we = false) :
    CursorOp.effect nextWord (Function.update m b ⟨(m b).cursor, perform p (m b).cell⟩) (.get b) =
      CursorOp.effect nextWord m (.get b) := by
  simp [CursorOp.effect, perform, hwe]

theorem update_eq_countWith {op : CursorOp Bank Word} (htouch : ∀ b', op.touches b' = decide (b = b')) :
    Function.update n b (n b + 1) = countWith n op := by
  funext b'
  rw [countWith, htouch]
  by_cases hb : b' = b
  · subst hb
    simp
  · simp [hb, Ne.symm hb]

/-- A write is decoded, and the strobe goes up. -/
theorem Between.writeStrobe (h : Between s₀ env cell₀ t m n) (hctrl : Served s₀ env cell₀)
    {offset : BitVec 10} {w : Word}
    (hscript : (hostAt s₀ env t).script = .access (.writeData b offset w) :: rest) :
    At (.writeBusy (.ddrData b)) (regsAt s₀ env (t + 2)).base ∧
      decode (regsAt s₀ env (t + 2)).base.wrAdrD0 = .submap (.ddrData b) ∧
      hostAt s₀ env (t + 2) = hostAt s₀ env t ∧
      ∃ x m', Waiting s₀ env cell₀ (t + 2) b x m' (countWith n (.put b w)) ∧
        CursorOp.effect nextWord m' (.get b) = CursorOp.effect nextWord m (.put b w) := by
  obtain ⟨hreq, hholds, hhost, hadr, -⟩ := h.requests hctrl hscript rfl rfl
  have hdec : decode (regsAt s₀ env (t + 1)).base.wrAdrD0 = .submap (.ddrData b) := by
    rw [hadr]
    exact decode_ddrData b offset
  have hscript₁ : (hostAt s₀ env (t + 1)).script = .access (.writeData b offset w) :: rest := by
    rw [hhost, hscript]
  have hwb := wb_access hscript₁
  obtain ⟨hbusy, hnack⟩ := hreq.decoded (i := baseAt s₀ env (t + 1)) rfl
    (by rw [In.wbEn, hwb]; rfl) (by rw [hwb]; rfl)
  rw [hdec, writePhase] at hbusy hnack
  obtain ⟨-, hfirst, -⟩ := hholds.quiet hctrl hreq rfl
  have hholds' := hholds.stays hctrl hreq rfl (fun b' => by simp [csrDdrAddrWreq, hdec])
  -- What the request carries.
  obtain ⟨hadr', hdat', hsel', -⟩ := step_bus (r := (regsAt s₀ env (t + 1)).base) (i := baseAt s₀ env (t + 1)) rfl
  have hwt : (regsAt s₀ env (t + 2)).base.wt (.ddrData b) = true := (hbusy.wt _).trans (by simp)
  have hdat : (regsAt s₀ env (t + 2)).base.wrDatD0 = w := by
    rw [base_succ, hdat', hwb]
    rfl
  have hsel : (regsAt s₀ env (t + 2)).base.wrSelD0 = 0xf#4 := by
    rw [base_succ, hsel', hwb]
    rfl
  have hwait := hholds'.request hbusy rfl hfirst
  rw [@update_eq_countWith b n (.put b w) fun _ => rfl] at hwait
  refine ⟨hbusy, ?_, (host_stays hscript₁ hnack).trans hhost, _, _, hwait,
    effect_write (m := m) (p := portOf s₀ env b (t + 2)) hwt (hholds'.cursor b) hdat hsel⟩
  rw [base_succ, hadr', In.wbAdr, hwb]
  exact decode_ddrData b offset

/-- The write stays until the controller acknowledges. -/
theorem Waiting.writeEnds {x : Option Word} (hw : Waiting s₀ env cell₀ t b x m n) (hctrl : Served s₀ env cell₀)
    {offset : BitVec 10} {w : Word}
    (hscript : (hostAt s₀ env t).script = .access (.writeData b offset w) :: rest)
    (hbusy : At (.writeBusy (.ddrData b)) (regsAt s₀ env t).base)
    (hdec : decode (regsAt s₀ env t).base.wrAdrD0 = .submap (.ddrData b)) :
    ∃ u, t < u ∧ Between s₀ env cell₀ u (CursorOp.effect nextWord m (.get b)) n ∧
      hostAt s₀ env u = ⟨rest, (hostAt s₀ env t).answers ++ [none]⟩ := by
  have hheld : ∀ r i, i.rstN = true → i.wb = (Access.writeData b offset w).lines →
      decode (SvecBaseRegs.step r i).wrAdrD0 = .submap (.ddrData b) := by
    intro r i hrst hlines
    rw [(step_bus hrst).1, In.wbAdr, hlines]
    exact decode_ddrData b offset
  obtain ⟨u, hu, hack, ⟨hbusy', hdec'⟩, hhost, hw'⟩ := hw.until_ack hctrl hscript
    (fun r => At (.writeBusy (.ddrData b)) r ∧ decode r.wrAdrD0 = .submap (.ddrData b)) (fun r hr => hr.1) rfl
    (fun r i hr hrst hlines hno => by
      obtain ⟨hnext, hnack⟩ := hr.1.write_goes_on hrst (by rw [In.wbEn, hlines]; rfl) (by rw [hlines]; rfl) hr.2
      rw [hno] at hnext hnack
      exact ⟨⟨hnext, hheld r i hrst hlines⟩, hnack⟩)
    ⟨hbusy, hdec⟩
  have hscript' : (hostAt s₀ env u).script = .access (.writeData b offset w) :: rest := by
    rw [hhost, hscript]
  have hwb := wb_access hscript'
  have hack' : ((baseAt s₀ env u).submapI (.ddrData b)).ack = true := hack
  obtain ⟨hidle, hdone⟩ := hbusy'.write_goes_on (i := baseAt s₀ env u) rfl (by rw [In.wbEn, hwb]; rfl)
    (by rw [hwb]; rfl) hdec'
  rw [hack'] at hidle hdone
  refine ⟨u + 1, by omega, ⟨hidle, (hw'.acked hctrl hbusy' rfl hack).1⟩, ?_⟩
  rw [host_moves hscript' hdone, hhost]
  rfl

theorem Between.writeData (h : Between s₀ env cell₀ t m n) (hctrl : Served s₀ env cell₀)
    {offset : BitVec 10} {w : Word}
    (hscript : (hostAt s₀ env t).script = .access (.writeData b offset w) :: rest) :
    ∃ u, t < u ∧ Between s₀ env cell₀ u (CursorOp.effect nextWord m (.put b w)) (countWith n (.put b w)) ∧
      hostAt s₀ env u = ⟨rest, (hostAt s₀ env t).answers ++ [none]⟩ := by
  obtain ⟨hbusy, hdec, hhost, x, m', hw, heffect⟩ := h.writeStrobe hctrl hscript
  obtain ⟨u, hu, hbetween, hanswer⟩ := hw.writeEnds hctrl (by rw [hhost, hscript]) hbusy hdec
  rw [heffect] at hbetween
  rw [hhost] at hanswer
  exact ⟨u, by omega, hbetween, hanswer⟩

/-- A read is answered, and the block is idle again. -/
theorem Holds.readDone (hm : Holds s₀ env cell₀ t m n) (hctrl : Served s₀ env cell₀)
    (h : At .readDone (regsAt s₀ env t).base) {a : Access}
    (hscript : (hostAt s₀ env t).script = .access a :: rest) (hwe : a.lines.we = false) :
    Between s₀ env cell₀ (t + 1) m n ∧ hostAt s₀ env (t + 1) =
      ⟨rest, (hostAt s₀ env t).answers ++ [some (regsAt s₀ env t).base.wbDatO]⟩ := by
  obtain ⟨hidle, hack⟩ := h.done (i := baseAt s₀ env t) rfl (by rw [wb_access hscript, hwe])
  refine ⟨⟨hidle, hm.stays hctrl h rfl (csrDdrAddrWreq_of_at h (by simp))⟩, ?_⟩
  rw [host_moves hscript hack, hwe]
  rfl

theorem Between.readAddr (h : Between s₀ env cell₀ t m n) (hctrl : Served s₀ env cell₀)
    (hscript : (hostAt s₀ env t).script = .access (.readAddr b) :: rest) :
    Between s₀ env cell₀ (t + 2) m n ∧
      hostAt s₀ env (t + 2) = ⟨rest, (hostAt s₀ env t).answers ++ [some (m b).cursor]⟩ := by
  have hwb := wb_access hscript
  have hdec : decode (baseAt s₀ env t).wbAdr = .csrDdrAddr b := by
    rw [In.wbAdr, hwb]
    exact decode_ddrAddr b
  obtain ⟨hdone, hnack⟩ := h.idle.read (i := baseAt s₀ env t) rfl (by rw [In.wbEn, hwb]; rfl) (by rw [hwb]; rfl)
  rw [hdec] at hdone
  have hhost := host_stays hscript hnack
  obtain ⟨hbetween, hanswer⟩ := (h.kept hctrl).readDone hctrl hdone (by rw [hhost, hscript]) rfl
  refine ⟨hbetween, ?_⟩
  rw [hanswer, hhost, base_succ, (step_bus rfl).2.2.2, rdDatD0, hdec]
  exact congrArg (fun w => Host.mk rest ((hostAt s₀ env t).answers ++ [some w])) (h.holds.cursor b)

/-- A page that is read. -/
theorem decode_readData {i : SvecBaseRegs.In} {offset : BitVec 10} (h : i.wb = (Access.readData b offset).lines) :
    decode i.wbAdr = .submap (.ddrData b) := by
  rw [In.wbAdr, h]
  exact decode_ddrData b offset

/-- The strobe of a read goes up in its second cycle; the word is the one at the cursor. -/
theorem Between.readStrobe (h : Between s₀ env cell₀ t m n) (hctrl : Served s₀ env cell₀)
    {offset : BitVec 10} (hscript : (hostAt s₀ env t).script = .access (.readData b offset) :: rest) :
    At (.readBusy (.ddrData b)) (regsAt s₀ env (t + 1)).base ∧ hostAt s₀ env (t + 1) = hostAt s₀ env t ∧
      ∃ m', Waiting s₀ env cell₀ (t + 1) b (some ((m b).cell (m b).cursor)) m' (countWith n (.get b)) ∧
        CursorOp.effect nextWord m' (.get b) = CursorOp.effect nextWord m (.get b) := by
  have hwb := wb_access hscript
  obtain ⟨hbusy, hnack⟩ := h.idle.read (i := baseAt s₀ env t) rfl (by rw [In.wbEn, hwb]; rfl) (by rw [hwb]; rfl)
  rw [decode_readData hwb, readPhase] at hbusy
  obtain ⟨-, hfirst, -⟩ := h.holds.quiet hctrl h.idle rfl
  have hholds := h.kept hctrl
  have hwe : (portOf s₀ env b (t + 1)).we = false := by
    show (regsAt s₀ env (t + 1)).base.wt (.ddrData b) = false
    exact (hbusy.wt _).trans (by simp)
  have hreply : reply (portOf s₀ env b (t + 1)) (m b).cell = some ((m b).cell (m b).cursor) := by
    rw [reply, hwe]
    exact congrArg (fun a => some ((m b).cell a)) (hholds.cursor b)
  have hwait := hholds.request hbusy rfl hfirst
  rw [hreply, @update_eq_countWith b n (.get b) fun _ => rfl] at hwait
  exact ⟨hbusy, host_stays hscript hnack, _, hwait, effect_read (m := m) hwe⟩

/-- The read stays until the controller acknowledges, and is answered in the next cycle. -/
theorem Waiting.readEnds {w : Word} (hw : Waiting s₀ env cell₀ t b (some w) m n) (hctrl : Served s₀ env cell₀)
    {offset : BitVec 10} (hscript : (hostAt s₀ env t).script = .access (.readData b offset) :: rest)
    (hbusy : At (.readBusy (.ddrData b)) (regsAt s₀ env t).base) :
    ∃ u, t < u ∧ Between s₀ env cell₀ u (CursorOp.effect nextWord m (.get b)) n ∧
      hostAt s₀ env u = ⟨rest, (hostAt s₀ env t).answers ++ [some w]⟩ := by
  obtain ⟨u, hu, hack, hbusy', hhost, hw'⟩ := hw.until_ack hctrl hscript
    (At (.readBusy (.ddrData b))) (fun r hr => hr) rfl
    (fun r i hr hrst hlines hno => by
      obtain ⟨hnext, hnack⟩ := hr.read_goes_on hrst (by rw [hlines]; rfl) (decode_readData hlines)
      rw [hno] at hnext
      exact ⟨hnext, hnack⟩)
    hbusy
  have hscript' : (hostAt s₀ env u).script = .access (.readData b offset) :: rest := by
    rw [hhost, hscript]
  have hwb := wb_access hscript'
  obtain ⟨hdone, hnack⟩ := hbusy'.read_goes_on (i := baseAt s₀ env u) rfl (by rw [hwb]; rfl)
    (decode_readData hwb)
  have hack' : ((baseAt s₀ env u).submapI (.ddrData b)).ack = true := hack
  rw [hack'] at hdone
  obtain ⟨hacked, hreply⟩ := hw'.acked hctrl hbusy' rfl hack
  have hhost' := host_stays hscript' hnack
  obtain ⟨hbetween, hanswer⟩ := hacked.readDone hctrl hdone (by rw [hhost', hscript']) rfl
  refine ⟨u + 2, by omega, hbetween, ?_⟩
  rw [hanswer, hhost', hhost, base_succ, (step_bus rfl).2.2.2, rdDatD0, decode_readData hwb]
  exact congrArg (fun w => Host.mk rest ((hostAt s₀ env t).answers ++ [some w])) (hreply w rfl)

theorem Between.readData (h : Between s₀ env cell₀ t m n) (hctrl : Served s₀ env cell₀)
    {offset : BitVec 10} (hscript : (hostAt s₀ env t).script = .access (.readData b offset) :: rest) :
    ∃ u, t < u ∧ Between s₀ env cell₀ u (CursorOp.effect nextWord m (.get b)) (countWith n (.get b)) ∧
      hostAt s₀ env u = ⟨rest, (hostAt s₀ env t).answers ++ [some ((m b).cell (m b).cursor)]⟩ := by
  obtain ⟨hbusy, hhost, m', hw, heffect⟩ := h.readStrobe hctrl hscript
  obtain ⟨u, hu, hbetween, hanswer⟩ := hw.readEnds hctrl (by rw [hhost, hscript]) hbusy
  rw [heffect] at hbetween
  rw [hhost] at hanswer
  exact ⟨u, by omega, hbetween, hanswer⟩

/-- Every access does what it does to the memories behind their cursors. -/
theorem Between.access (h : Between s₀ env cell₀ t m n) (hctrl : Served s₀ env cell₀) {a : Access}
    (hscript : (hostAt s₀ env t).script = .access a :: rest) :
    ∃ u, t < u ∧ Between s₀ env cell₀ u (CursorOp.effect nextWord m a.op) (countWith n a.op) ∧
      hostAt s₀ env u = ⟨rest, (hostAt s₀ env t).answers ++ [CursorOp.answer m a.op]⟩ := by
  cases a with
  | writeAddr b a => exact ⟨t + 2, by omega, h.writeAddr hctrl hscript⟩
  | readAddr b => exact ⟨t + 2, by omega, h.readAddr hctrl hscript⟩
  | writeData b offset w => exact h.writeData hctrl hscript
  | readData b offset => exact h.readData hctrl hscript

end Slot

end Run

/-! ## Whole runs -/

section Script

variable (slots : List Slot) (regs : SvecBaseWr.Regs) (env : ℕ → SvecBaseWr.In) (cell₀ : Bank → Word → Word)

/-- The host at the start of a script. -/
def start : Sys := ⟨⟨slots, []⟩, regs⟩

/-- The memories at the start. -/
def memories : Bank → CursorMem Word := fun b => ⟨regs.csrDdrAddr b, cell₀ b⟩

/-- The first `k` slots are done at `t`: what they returned, the cursors and the memories are
those of the accesses, and there was one request for each that touches a memory. -/
structure Done (k t : ℕ) : Prop where
  script : (hostAt (start slots regs) env t).script = slots.drop k
  answers : (hostAt (start slots regs) env t).answers =
    CursorOp.answers nextWord (memories regs cell₀) (ops (slots.take k))
  cursor : ∀ b, (regsAt (start slots regs) env t).csrDdrAddr b =
    (CursorOp.effects nextWord (memories regs cell₀) (ops (slots.take k)) b).cursor
  cell : ∀ b, cellAt (cell₀ b) (portOf (start slots regs) env b) t =
    (CursorOp.effects nextWord (memories regs cell₀) (ops (slots.take k)) b).cell
  requests : ∀ b, Nat.count (fun t => asks (portOf (start slots regs) env b t) = true) t =
    (ops (slots.take k)).countP (CursorOp.touches b)

variable {slots regs env cell₀}

theorem ops_take_succ {k : ℕ} (hk : k < slots.length) :
    ops (slots.take (k + 1)) = ops (slots.take k) ++ slots[k].op?.toList := by
  rw [List.take_succ_eq_append_getElem hk, ops, List.filterMap_append]
  cases hop : slots[k].op? <;> simp [ops, hop]

/-- Before slot `k` the carrier is as it should be, and so is the host. -/
def Stage (slots : List Slot) (regs : SvecBaseWr.Regs) (env : ℕ → SvecBaseWr.In) (cell₀ : Bank → Word → Word)
    (k t : ℕ) : Prop :=
  Between (start slots regs) env cell₀ t
      (CursorOp.effects nextWord (memories regs cell₀) (ops (slots.take k)))
      (fun b => (ops (slots.take k)).countP (CursorOp.touches b)) ∧
    hostAt (start slots regs) env t =
      ⟨slots.drop k, CursorOp.answers nextWord (memories regs cell₀) (ops (slots.take k))⟩

theorem stage_zero (hidle : Idle regs.base) : Stage slots regs env cell₀ 0 0 :=
  ⟨⟨hidle, fun _ => rfl, fun _ => settled_zero⟩, rfl⟩

theorem Stage.done {k t : ℕ} (h : Stage slots regs env cell₀ k t) : Done slots regs env cell₀ k t where
  script := by rw [h.2]
  answers := by rw [h.2]
  cursor := h.1.holds.cursor
  cell := fun b => (h.1.holds.settled b).cells
  requests := fun b => (h.1.holds.settled b).count

/-- A slot leads from stage to stage. -/
theorem Stage.next (hctrl : Served (start slots regs) env cell₀)
    {k t : ℕ} (hk : k < slots.length) (h : Stage slots regs env cell₀ k t) :
    ∃ u, t < u ∧ Stage slots regs env cell₀ (k + 1) u := by
  obtain ⟨hbetween, hhost⟩ := h
  have hcons : slots.drop k = slots[k] :: slots.drop (k + 1) := List.drop_eq_getElem_cons hk
  have hscript : (hostAt (start slots regs) env t).script = slots[k] :: slots.drop (k + 1) := by
    rw [hhost, hcons]
  have hops := ops_take_succ hk
  cases hslot : slots[k] with
  | pause l =>
    rw [hslot] at hscript hops
    obtain ⟨hnext, hhost'⟩ := hbetween.pause hctrl hscript
    refine ⟨t + 1, Nat.lt_succ_self t, ?_⟩
    rw [Stage, hops, Slot.op?, Option.toList_none, List.append_nil]
    exact ⟨hnext, by rw [hhost', hhost]⟩
  | access a =>
    rw [hslot] at hscript hops
    obtain ⟨u, hu, hnext, hhost'⟩ := hbetween.access hctrl hscript
    refine ⟨u, hu, ?_⟩
    rw [Stage, hops, Slot.op?, Option.toList_some, CursorOp.effects_append, CursorOp.answers_append]
    refine ⟨?_, by rw [hhost', hhost]; rfl⟩
    have hcount : (fun b => (ops (slots.take k) ++ [a.op]).countP (CursorOp.touches b)) =
        countWith (fun b => (ops (slots.take k)).countP (CursorOp.touches b)) a.op := by
      funext b
      rw [List.countP_append, List.countP_singleton, countWith]
    rw [hcount]
    exact hnext

theorem stages (hidle : Idle regs.base)
    (hctrl : Served (start slots regs) env cell₀) :
    ∃ T : ℕ → ℕ, T 0 = 0 ∧ (∀ k, k < slots.length → T k < T (k + 1)) ∧
      ∀ k, k ≤ slots.length → Stage slots regs env cell₀ k (T k) :=
  exists_stages slots.length (stage_zero hidle) fun _ _ hk h => h.next hctrl hk

/-- A host that has finished stays so. -/
theorem host_finished {s₀ : Sys} {t : ℕ} (h : (hostAt s₀ env t).script = []) (n : ℕ) :
    hostAt s₀ env (t + n) = hostAt s₀ env t := by
  induction n with
  | zero => rfl
  | succ n ih =>
    rw [← ih] at h
    rw [← Nat.add_assoc, ← ih]
    show (hostAt s₀ env (t + n)).next (carrierWbOut _ _) = _
    rw [Host.next, h]

/-! ### The cursor of a copy -/

theorem nextWord_iterate (a : Word) (n : ℕ) : nextWord^[n] a = a + BitVec.ofNat 32 (4 * n) := by
  induction n with
  | zero => exact (BitVec.add_zero a).symm
  | succ n ih =>
    rw [Function.iterate_succ_apply', ih, nextWord]
    apply BitVec.eq_of_toNat_eq
    simp only [BitVec.toNat_add, BitVec.toNat_ofNat]
    omega

/-- 2^30 words have room. -/
theorem nextWord_room (a : Word) {i j : ℕ} (hi : i < 2 ^ 30) (hj : j < 2 ^ 30)
    (h : nextWord^[i] a = nextWord^[j] a) : i = j := by
  rw [nextWord_iterate, nextWord_iterate] at h
  have hnat := congrArg BitVec.toNat h
  simp only [BitVec.toNat_add, BitVec.toNat_ofNat] at hnat
  omega

/-- One more does not. -/
theorem nextWord_wraps (a : Word) : nextWord^[2 ^ 30] a = a := by
  rw [nextWord_iterate]
  exact BitVec.add_zero a

end Script

/-! ## Controllers that answer at once -/

/-- The inputs of a carrier on which nothing happens. -/
def quietIn : SvecBaseWr.In where
  rstSys62m5N := true
  carrierWbIn := ⟨false, false, 0#32, 0#4, false, 0#32⟩
  metadataData := 0#32
  gAppOffset := 0#32
  fmcPresence := 0#32
  ddrCalibDone := fun _ => true
  pcbrevI := 0#5
  buildinfoData := 0#32
  submapIn := fun _ => ⟨false, false, 0#32⟩
  undefined := 0#32

/-- The inputs where the controllers acknowledge in the cycle of a request. -/
def immediate (cell : Bank → Word → Word) (r : SvecBaseWr.Regs) : SvecBaseWr.In :=
  { quietIn with
    submapIn := fun m =>
      match m with
      | .ddrData b => ⟨asks (ddrPort r quietIn b), false, cell b (ddrPort r quietIn b).addr⟩
      | _ => ⟨false, false, 0#32⟩ }

/-- A run with such controllers: the system and the memories. -/
def immediateRun (s₀ : Sys) (cell₀ : Bank → Word → Word) : ℕ → Sys × (Bank → Word → Word)
  | 0 => (s₀, cell₀)
  | t + 1 =>
    let now := immediateRun s₀ cell₀ t
    (now.1.step (immediate now.2 now.1.regs), fun b =>
      if asks (ddrPort now.1.regs quietIn b) then perform (ddrPort now.1.regs quietIn b) (now.2 b) else now.2 b)

def immediateEnv (s₀ : Sys) (cell₀ : Bank → Word → Word) (t : ℕ) : SvecBaseWr.In :=
  immediate (immediateRun s₀ cell₀ t).2 (immediateRun s₀ cell₀ t).1.regs

section Immediate

variable (s₀ : Sys) (cell₀ : Bank → Word → Word)

theorem run_immediate (t : ℕ) : run Sys.step s₀ (immediateEnv s₀ cell₀) t = (immediateRun s₀ cell₀ t).1 := by
  induction t with
  | zero => rfl
  | succ t ih =>
    rw [run_succ, ih]
    rfl

theorem portOf_immediate (b : Bank) (t : ℕ) : portOf s₀ (immediateEnv s₀ cell₀) b t =
    ddrPort (immediateRun s₀ cell₀ t).1.regs quietIn b := by
  rw [portOf, run_immediate]
  rfl

theorem cellAt_immediate (b : Bank) (t : ℕ) :
    cellAt (cell₀ b) (portOf s₀ (immediateEnv s₀ cell₀) b) t = (immediateRun s₀ cell₀ t).2 b := by
  induction t with
  | zero => rfl
  | succ t ih =>
    rw [cellAt, ih, portOf_immediate]
    rfl

theorem immediate_serves (b : Bank) : ServesMemory (cell₀ b) (portOf s₀ (immediateEnv s₀ cell₀) b)
    (answersOf (immediateEnv s₀ cell₀) b) := by
  have hack : ∀ t, (answersOf (immediateEnv s₀ cell₀) b t).ack =
      asks (portOf s₀ (immediateEnv s₀ cell₀) b t) := by
    intro t
    rw [portOf_immediate]
    rfl
  have howed : ∀ t, owed (cell₀ b) (portOf s₀ (immediateEnv s₀ cell₀) b)
      (answersOf (immediateEnv s₀ cell₀) b) t = [] := by
    intro t
    induction t with
    | zero => rfl
    | succ t ih =>
      rw [owed_succ, hack, owing, owedWith, ih]
      split <;> rfl
  have howing : ∀ t, owing (cell₀ b) (portOf s₀ (immediateEnv s₀ cell₀) b)
      (answersOf (immediateEnv s₀ cell₀) b) t =
      if asks (portOf s₀ (immediateEnv s₀ cell₀) b t) then
        [reply (portOf s₀ (immediateEnv s₀ cell₀) b t) ((immediateRun s₀ cell₀ t).2 b)] else [] := by
    intro t
    rw [owing, owedWith, howed, cellAt_immediate]
    rfl
  refine ⟨fun t h => ?_, fun t w rest h hdue => ?_, fun t h => ⟨t, Nat.le_refl t, ?_⟩⟩
  · rw [hack] at h
    simp [howing, h]
  · rw [hack] at h
    rw [howing, if_pos h] at hdue
    have hreply := (List.cons.inj hdue).1
    rw [portOf_immediate, reply] at hreply
    split at hreply
    · cases hreply
    · exact Option.some.inj hreply
  · rw [hack]
    by_contra hno
    exact h (by rw [howing, if_neg hno])

end Immediate

/-! ## The pages -/

section Pages

variable {slots : List Slot} {regs : SvecBaseWr.Regs} {env : ℕ → SvecBaseWr.In} {cell₀ : Bank → Word → Word}

/-- For the host the carrier's pages are two memories, each behind a cursor of its own: slot by
slot it gets what these return, and each access to a page is one request to the controller of
its bank.  Up to 2^30 words that are written from an address on are read back in order. -/
theorem pages_are_memories (hidle : Idle regs.base)
    (hctrl : ∀ b, ServesMemory (cell₀ b) (portOf (start slots regs) env b) (answersOf env b)) :
    (∃ T : ℕ → ℕ, T 0 = 0 ∧ (∀ k, k < slots.length → T k < T (k + 1)) ∧
        ∀ k, k ≤ slots.length → Done slots regs env cell₀ k (T k)) ∧
      ∀ (b : Bank) (a : Word) (ws : List Word), ws.length ≤ 2 ^ 30 → ops slots = CursorOp.copy b a ws →
        ∃ t, hostAt (start slots regs) env t =
          ⟨[], none :: List.replicate ws.length none ++ none :: ws.map some⟩ := by
  obtain ⟨T, hT, hmono, hstage⟩ := stages hidle hctrl
  refine ⟨⟨T, hT, hmono, fun k hk => (hstage k hk).done⟩, fun b a ws hlen hops => ?_⟩
  refine ⟨T slots.length, ?_⟩
  obtain ⟨-, hhost⟩ := hstage slots.length (Nat.le_refl _)
  rw [hhost, List.drop_length, List.take_length, hops]
  refine congrArg (Host.mk []) (CursorOp.answers_copy_of_room b a ws fun i hi j hj => ?_)
  exact nextWord_room a (Nat.lt_of_lt_of_le hi hlen) (Nat.lt_of_lt_of_le hj hlen)

end Pages

/-- The registers after a reset, at address 0. -/
def idleRegs : SvecBaseWr.Regs where
  base := ⟨false, false, false, 0#32, false, 0#12, 0#32, 0#4, false, false, false, false, false, false, false,
    fun _ => false, fun _ => false⟩
  csrDdrAddr := fun _ => 0#32
  ddrDataStbD := fun _ => false

theorem idle_idleRegs : Idle idleRegs.base :=
  ⟨rfl, rfl, rfl, rfl, fun _ => rfl, fun _ => rfl, rfl, rfl, rfl, rfl, rfl⟩

/-- Two words over the end of the addresses, with a pause between them. -/
def twoWords : List Slot :=
  [.access (.writeAddr .ddr5 0xfffffffc#32), .access (.writeData .ddr5 0#10 0xcafe#32), .pause quietIn.carrierWbIn,
    .access (.writeData .ddr5 1#10 0xbabe#32), .access (.writeAddr .ddr5 0xfffffffc#32),
    .access (.readData .ddr5 0#10), .access (.readData .ddr5 0#10)]

theorem pages_are_memories_two_words :
    ∃ t, hostAt (start twoWords idleRegs) (immediateEnv (start twoWords idleRegs) fun _ _ => 0#32) t =
      ⟨[], [none, none, none, none, some 0xcafe#32, some 0xbabe#32]⟩ :=
  (pages_are_memories idle_idleRegs (immediate_serves (start twoWords idleRegs) fun _ _ => 0#32)).2
    .ddr5 0xfffffffc#32 [0xcafe#32, 0xbabe#32] (by decide) rfl

/-- A copy without pauses. -/
def copySlots (b : Bank) (a : Word) (ws : List Word) : List Slot :=
  .access (.writeAddr b a) :: ws.map (fun w => .access (.writeData b 0#10 w)) ++
    .access (.writeAddr b a) :: List.replicate ws.length (.access (.readData b 0#10))

theorem ops_copySlots (b : Bank) (a : Word) (ws : List Word) :
    ops (copySlots b a ws) = CursorOp.copy b a ws := by
  have hputs : (ws.map (fun w => Slot.access (.writeData b 0#10 w))).filterMap Slot.op? =
      CursorOp.puts b ws := by
    rw [List.filterMap_map]
    exact List.filterMap_eq_map ▸ rfl
  have hgets : (List.replicate ws.length (Slot.access (.readData b 0#10))).filterMap Slot.op? =
      CursorOp.gets b ws.length := List.filterMap_replicate_of_some rfl
  rw [ops, copySlots, List.filterMap_append]
  show CursorOp.seek b a :: (List.map _ ws).filterMap Slot.op? ++
    CursorOp.seek b a :: (List.replicate ws.length _).filterMap Slot.op? = _
  rw [hputs, hgets]
  rfl

/-- The word after 2^30 others is written over the first of them. -/
theorem last_word_over_first :
    ¬ ∀ (slots : List Slot) (regs : SvecBaseWr.Regs) (env : ℕ → SvecBaseWr.In) (cell₀ : Bank → Word → Word),
      Idle regs.base →
      (∀ b, ServesMemory (cell₀ b) (portOf (start slots regs) env b) (answersOf env b)) →
      ∀ (b : Bank) (a : Word) (ws : List Word), ops slots = CursorOp.copy b a ws →
        ∃ t, hostAt (start slots regs) env t =
          ⟨[], none :: List.replicate ws.length none ++ none :: ws.map some⟩ := by
  intro hall
  obtain ⟨n, hn⟩ : ∃ n, n + 1 = 2 ^ 30 := ⟨2 ^ 30 - 1, rfl⟩
  obtain ⟨ws, hws⟩ : ∃ ws, ws = List.replicate (n + 1) 0#32 := ⟨_, rfl⟩
  have hlen : ws.length = 2 ^ 30 := by rw [hws, List.length_replicate, hn]
  obtain ⟨slots, hslots⟩ : ∃ slots, slots = copySlots .ddr4 0#32 (ws ++ [1#32]) := ⟨_, rfl⟩
  have hops : ops slots = CursorOp.copy .ddr4 0#32 (ws ++ [1#32]) := by rw [hslots, ops_copySlots]
  have hserves := immediate_serves (start slots idleRegs) fun _ _ => 0#32
  obtain ⟨t, ht⟩ := hall slots idleRegs _ _ idle_idleRegs hserves .ddr4 0#32 (ws ++ [1#32]) hops
  obtain ⟨T, -, -, hstage⟩ := stages idle_idleRegs hserves
  obtain ⟨-, hu⟩ := hstage slots.length (Nat.le_refl _)
  rw [List.drop_length, List.take_length, hops, CursorOp.answers_copy] at hu
  -- Both are the host when it has finished.
  have heq := (host_finished (by rw [ht]) (T slots.length)).symm.trans
    ((congrArg _ (Nat.add_comm t (T slots.length))).trans (host_finished (by rw [hu]) t))
  rw [ht, hu] at heq
  have hfirst := congrArg List.head? (List.cons.inj (List.append_cancel_left (congrArg Host.answers heq))).2
  have hwrap : (CursorOp.effects nextWord (CursorOp.effect nextWord (memories idleRegs fun _ _ => 0#32)
      (.seek .ddr4 0#32)) (CursorOp.puts .ddr4 (ws ++ [1#32])) .ddr4).cell 0#32 = 1#32 :=
    CursorOp.copy_wraps Bank.ddr4 0#32 ws 1#32 (by rw [hlen]; exact nextWord_wraps 0#32)
  have hwritten : (List.map some (ws ++ [1#32])).head? = some (some 0#32) := by
    rw [hws, List.replicate_succ]
    rfl
  rw [hwritten, List.length_append, List.length_singleton, List.range_succ_eq_map, List.map_cons,
    List.head?_cons, Function.iterate_zero_apply, hwrap] at hfirst
  exact absurd hfirst (by decide)

end Svec.Ddr
