/-
  Host/OnCore.lean --- the driver's session on the bootloader core.

  A session writes to the bus; the core sees accesses.  Where the accesses that begin
  after START are the writes of the session, with reads in between as they may fall,
  the entries that the core pushes are those of the session, and the configuration
  pins carry the bitstream.
-/
import Svec.Host.ClockedOut
import Svec.Boot.HostMode

set_option autoImplicit false

namespace Svec.Host.OnCore

open Svec.Data Svec.Hdl Svec.Hdl.Bootloader Svec.Boot Svec.Host Svec.Host.Upload Svec.Host.ClockedOut
  Svec.Loader.Registers Svec.Loader.Serialise Svec.Loader.Delivery Svec.Boot.HostMode
open Svec.Host.SvecCore (FpgaImageInfo svecFpgaWriteInit)
open Svec.Host.Stream (session session_neverBusy)

/-! ## The writes of a program that feeds the FIFO -/

section Writes

variable {M : Machine} {h g : Proc M} {es : List FifoEntry}

theorem log_of_entry (g : Proc M) (r0 r1 : Word) :
    (((g.read regFifoCsr).2.write r0 regFifoR0).write r1 regFifoR1).log =
      g.log ++ [⟨(g.read regFifoCsr).2.st, r0, regFifoR0⟩,
        ⟨((g.read regFifoCsr).2.write r0 regFifoR0).st, r1, regFifoR1⟩] := by
  simp [Proc.write]

/-- Such a program writes to the two FIFO registers only. -/
theorem feeding_log (hg : Feeding h g es) :
    ∃ l, g.log = h.log ++ l ∧ ∀ w ∈ l, w.addr = regFifoR0 ∨ w.addr = regFifoR1 := by
  induction hg with
  | refl => exact ⟨[], by simp, fun _ hw => absurd hw List.not_mem_nil⟩
  | read _ _ ih => exact ih
  | usleepRange _ _ _ ih => exact ih
  | getJiffies64 _ ih => exact ih
  | entry _ r0 r1 _ ih =>
    obtain ⟨l, hl, haddr⟩ := ih
    refine ⟨_, by rw [log_of_entry, hl, List.append_assoc], fun w hw => ?_⟩
    rcases List.mem_append.mp hw with hw | hw
    · exact haddr w hw
    · rcases List.mem_cons.mp hw with rfl | hw
      · exact .inl rfl
      · rw [List.mem_singleton.mp hw]
        exact .inr rfl

/-- The accesses of its writes stand for its entries. -/
theorem entriesOf_feeding (hg : Feeding h g es) {l : List (BusWrite M)} (hl : g.log = h.log ++ l)
    (r0 : BitVec 2 × Bool) : entriesOf r0 (l.map accessOf) = es := by
  obtain ⟨l', hl', haddr⟩ := feeding_log hg
  obtain rfl : l' = l := List.append_cancel_left (hl'.symm.trans hl)
  obtain ⟨ps, ⟨l'', hl'', hemits⟩, hes⟩ := hg.runs
  obtain rfl : l'' = l' := List.append_cancel_left (hl''.symm.trans hl')
  have hreg : ∀ w ∈ l'', RegAddr w := by
    intro w hw
    unfold RegAddr
    rcases haddr w hw with heq | heq <;> rw [heq] <;> decide
  obtain ⟨w, hw⟩ : ∃ w : Word, (w.extractLsb' 0 2, w.getLsbD 2) = r0 := by
    refine ⟨(BitVec.ofBool r0.2 ++ r0.1).setWidth 32, ?_⟩
    obtain ⟨x, b⟩ := r0
    revert x b
    decide
  rw [← hw, ← pushes_eq_entriesOf l'' hreg w, hemits.pushes_eq w, hes]

end Writes

/-! ## Accesses and writes -/

/-- Reads push nothing. -/
theorem entriesOf_filter (r0 : BitVec 2 × Bool) (l : List Access) :
    entriesOf r0 (l.filter fun a => a.we) = entriesOf r0 l := by
  induction l generalizing r0 with
  | nil => rfl
  | cons a l ih =>
    rw [List.filter_cons]
    cases hwe : a.we with
    | true =>
      rw [if_pos rfl, entriesOf, entriesOf]
      cases a.wrote 4#3 with
      | some d => exact ih _
      | none => cases a.wrote 5#3 <;> simp only [ih]
    | false =>
      have hno : ∀ reg, a.wrote reg = none := fun reg =>
        if_neg fun hw => Bool.false_ne_true (hwe.symm.trans hw.1)
      rw [if_neg Bool.false_ne_true, entriesOf, hno, hno]
      exact ih r0

/-- The writes that the core sees from the START in cycle `u` on are the access of START and the
writes `l`. -/
def SeesWrites {M : Machine} {P : Parts} (s : Regs P) (inp : ℕ → In) (u n : ℕ) (a : Access)
    (l : List (BusWrite M)) : Prop :=
  (accesses s inp u n).filter (fun a => a.we) = a :: l.map accessOf

/-- What a program writes when it ends. -/
theorem ends_log {M : Machine} {g k : Proc M} (h : Ends g k) :
    ∃ l, k.log = g.log ++ l ∧ ∀ w ∈ l, w.value = csrExit ∧ w.addr = regCsr := by
  have hexit : ∃ l, (g.write csrExit regCsr).log = g.log ++ l ∧
      ∀ w ∈ l, w.value = csrExit ∧ w.addr = regCsr :=
    ⟨_, rfl, fun w hw => by rw [List.mem_singleton.mp hw]; exact ⟨rfl, rfl⟩⟩
  cases h with
  | here => exact ⟨[], (List.append_nil _).symm, fun _ hw => absurd hw List.not_mem_nil⟩
  | exit => exact hexit
  | exitAndSleep => exact hexit

/-- A session in which no word gives up on a full FIFO writes `l` to the FIFO registers after START,
and then at most EXIT.  On a core that sees `l`, with reads in between as they may fall, what the CCLK
edges have sampled at the pins, what is inside the loader and what is in the FIFO are together the bits
of the bitstream, in order, unless INIT_B has not answered and nothing was sampled. -/
theorem core_carries_session {M : Machine} (L : LoaderFifo M) (h : Proc M) (bufs : List Buffer)
    (rounds : ℕ) (info : FpgaImageInfo) (hsize : ∀ b ∈ bufs, b.bytes.length ≤ 2 ^ 31)
    (hok : (session h bufs rounds info).NeverBusy) :
    ∃ l l', (session h bufs rounds info).after.log = (svecFpgaWriteInit h).2.2.log ++ l ++ l' ∧
      (∀ w ∈ l, w.addr = regFifoR0 ∨ w.addr = regFifoR1) ∧
      (∀ w ∈ l', w.value = csrExit ∧ w.addr = regCsr) ∧
      ∀ (P : Parts) (s : Regs P) (inp : ℕ → In) (u k : ℕ) (a : Access), a.csrBit 4 = true →
        StartWrite s inp u a → FeedsOnly s inp u (3 + k) → SeesWrites s inp u (2 + k) a l →
        (pinSamples s inp (u + 3) k = [] ∧ (Opening (core s inp (u + 3 + k)).xldr.state ∨
          (core s inp (u + 3 + k)).xldr.state = .idle)) ∨
        pinSamples s inp (u + 3) k ++ coreInLoader true (core s inp (u + 3 + k)) ++
            (P.fifo.contents (core s inp (u + 3 + k)).fifo).flatMap (FifoEntry.bits true) =
          (bufs.flatMap Buffer.bytes).flatMap byteBits := by
  obtain ⟨g, es, hfeeding, hends, hlast, hbits⟩ := session_feeding L h bufs rounds info hok
  rw [(SvecFlasher.flatMap_taken_eq_iff bufs).mpr hsize] at hbits
  obtain ⟨l, hl, haddr⟩ := feeding_log hfeeding
  obtain ⟨l', hl', hexit⟩ := ends_log hends
  refine ⟨l, l', by rw [hl', hl], haddr, hexit, fun P s inp u k a hmsbf hstart hfeeds hsees => ?_⟩
  have hes : entriesOf ((core s inp u).wb.fifoInInt.xsize, (core s inp u).wb.fifoInInt.xlast)
      (accesses s inp u (2 + k)) = es := by
    have hreg : a.wrote 4#3 = none ∧ a.wrote 5#3 = none := startAccess_reg hstart.start
    rw [← entriesOf_filter, hsees, entriesOf, hreg.1, hreg.2]
    exact entriesOf_feeding hfeeding hl _
  have hcore := conserves_of_entries hstart hfeeds (hes.symm ▸ hlast)
  rw [hes, hmsbf, hbits] at hcore
  exact hcore

/-- The session of a bitstream of two bytes, and the core that sees it: they come out at the pins. -/
theorem core_carries_session_two :
    pinSamples Isolation.afterReset startAndFeed 33 1060 = [0xaa#8, 0xbb#8].flatMap byteBits := by
  obtain ⟨l, l', hlog, haddr, hexit, h⟩ := core_carries_session attentiveCard_fifo ⟨(), []⟩
    [⟨[0xaa#8, 0xbb#8], fun _ => 0#8⟩] 1 ⟨0#32⟩ (by decide)
    (session_neverBusy (fun s => by cases s; decide) _ _ 1 ⟨0#32⟩)
  -- The log by value and register: up to EXIT it is `l`.
  have hpairs := congrArg (List.map fun w : BusWrite attentiveCard => (w.value, w.addr)) hlog
  rw [List.append_assoc, List.map_append] at hpairs
  have hwrites : (l ++ l').map (fun w => (w.value, w.addr)) =
      [(0x5#32, regFifoR0), (0xaabb0000#32, regFifoR1), (csrExit, regCsr)] :=
    List.append_cancel_left (hpairs.symm.trans (by decide +kernel))
  have hfilter : (l ++ l').filter (fun w => w.addr ≠ regCsr) = l := by
    rw [List.filter_append, List.filter_eq_self.mpr fun w hw => ?_, List.filter_eq_nil_iff.mpr fun w hw => ?_,
      List.append_nil]
    · simp [(hexit w hw).2]
    · rcases haddr w hw with heq | heq <;> rw [heq] <;> decide
  have hl : l.map accessOf = [⟨true, 4#3, 0x5#32⟩, ⟨true, 5#3, 0xaabb0000#32⟩] := by
    have hmap : ((l ++ l').map (fun w => (w.value, w.addr))).filter (fun p => decide (p.2 ≠ regCsr)) =
        ((l ++ l').filter (fun w => decide (w.addr ≠ regCsr))).map (fun w => (w.value, w.addr)) :=
      List.filter_map
    have hpairs' : l.map (fun w => (w.value, w.addr)) = [(0x5#32, regFifoR0), (0xaabb0000#32, regFifoR1)] := by
      rw [hwrites] at hmap
      exact (congrArg _ hfilter.symm).trans (hmap.symm.trans (by decide))
    have hacc := congrArg (List.map fun p : Word × Word => (⟨true, p.2.extractLsb' 2 3, p.1⟩ : Access)) hpairs'
    rw [List.map_map] at hacc
    exact hacc.trans (by decide)
  have hsees : (accesses Isolation.afterReset startAndFeed 30 (2 + 1060)).filter (fun a => a.we) =
      [⟨true, 0#3, 0x11#32⟩, ⟨true, 4#3, 0x5#32⟩, ⟨true, 5#3, 0xaabb0000#32⟩] := by
    rw [startAndFeed_accesses 1054]
    decide
  exact startAndFeed_out (h (standIns fun _ => 0xff#8) Isolation.afterReset startAndFeed 30 1060
    ⟨true, 0#3, 0x11#32⟩ (by decide) startAndFeed_starts (startAndFeed_feeds _)
    (by rw [SeesWrites, hl]; exact hsees))

end Svec.Host.OnCore
