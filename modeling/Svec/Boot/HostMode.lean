/-
  Boot/HostMode.lean --- the core while the host is the boot source.

  In host mode the core is the register block, the FIFO and the loader: they run as
  the path from the host to the loader that the sessions are about, on the waveform
  that the register block makes of the bus.  So what is said there of pushes and
  pulses holds of the bus accesses and of the configuration pins.
-/
import Svec.Boot.HostFlash
import Svec.Loader.Registers
import Svec.Loader.Delivery

set_option autoImplicit false

namespace Svec.Boot.HostMode

open Svec.Data Svec.Sync Svec.Hdl Svec.Hdl.Bootloader Svec.Loader.Session Svec.Loader.Registers
  Svec.Loader.Serialise Svec.Loader.Delivery
open Svec.Boot.Isolation (Reachable)

variable {P : Parts}

/-! ## The register block of the core -/

theorem hasLedger_reset {i : In} (hr : i.rstN = false) (r : Regs P) : ∃ l, Keeps (step r i).wb l := by
  refine ⟨freshLedger r.wb, ?_⟩
  rw [step_wb, hr]
  exact keeps_reset r.wb

theorem hasLedger_step {r : Regs P} (h : ∃ l, Keeps r.wb l) (i : In) : ∃ l, Keeps (step r i).wb l := by
  cases hr : i.rstN with
  | false => exact hasLedger_reset hr r
  | true =>
    obtain ⟨l, hl⟩ := h
    refine ⟨l.step (wbIn P i), ?_⟩
    rw [step_wb, hr]
    exact keeps_step hl

/-- Whatever happened before, the block keeps a ledger after a reset. -/
theorem hasLedger_run {s : Regs P} (h : Reachable s) (inp : ℕ → In) (t : ℕ) :
    ∃ l, Keeps (core s inp t).wb l := by
  refine invariant_run (I := fun r : Regs P => ∃ l, Keeps r.wb l) (A := fun _ _ => True) ?_
    (fun _ i h _ => hasLedger_step h i) (fun _ => trivial) t
  obtain ⟨s₀, inp₀, u, n, hun, hrst, rfl⟩ := h
  exact invariant_since (I := fun _ (r : Regs P) => ∃ l, Keeps r.wb l) (hasLedger_reset hrst _) hun
    fun k _ _ ih => hasLedger_step ih (inp₀ k)

/-- The accesses that begin in the `n` cycles from `u` on. -/
def accesses (s : Regs P) (inp : ℕ → In) (u n : ℕ) : List Access :=
  collect (fun j => (begun (core s inp (u + j)).wb (wbIn P (inp (u + j)))).toList) n

/-- While there is no reset the block keeps the ledger of the bus. -/
theorem keeps_from {s : Regs P} {inp : ℕ → In} {u n : ℕ} {l : Ledger} (hl : Keeps (core s inp u).wb l)
    (hrst : ∀ j, j < n → (inp (u + j)).rstN = true) :
    Keeps (core s inp (u + n)).wb (ledger l (fun j => wbIn P (inp (u + j))) n) := by
  induction n with
  | zero => exact hl
  | succ n ih =>
    have hkeeps := ih fun j hj => hrst j (Nat.lt_succ_of_lt hj)
    rw [← Nat.add_assoc, core_succ, step_wb, hrst n (Nat.lt_succ_self n), ledger_succ]
    exact keeps_step hkeeps

/-! ## The path from the host to the loader -/

/-- What the register block and the pins supply to the loader and the FIFO. -/
def hostIn (r : Regs P) (i : In) : HostIn where
  rstN := i.rstN
  csrSwrst := r.wb.csrSwrst
  csrStart := r.wb.csrStart && i.bootEn
  csrMsbf := r.wb.csrMsbfInt
  csrExit := r.wb.csrExit
  csrClkdiv := r.wb.csrClkdivInt
  fifoClearBus := r.wb.fifoClearBusInt
  fifoPush := pushOf r.wb
  initBSynced := (xldrIn r i).initBSynced
  doneSynced := (xldrIn r i).doneSynced

/-- A FIFO in a list, of stamped entries. -/
abbrev stampedFifo : FifoSync Stamped 256 := listFifo Stamped 256 default

/-- The core is in the state of the path. -/
structure OnPath (r : Regs P) (h : HostPath stampedFifo) : Prop where
  ldr : r.xldr = h.ldr
  contents : P.fifo.contents r.fifo = stored h
  port : P.fifo.rdData r.fifo = onPort h

/-- There is such a state of the path. -/
theorem exists_onPath (r : Regs P) : ∃ h : HostPath stampedFifo, OnPath r h := by
  refine ⟨⟨r.xldr, ((P.fifo.contents r.fifo).map fun e => (e, 0), (P.fifo.rdData r.fifo, 0))⟩, rfl, ?_, rfl⟩
  show _ = List.map Prod.fst (List.map (fun e => (e, 0)) (P.fifo.contents r.fifo))
  rw [List.map_map]
  exact (List.map_id _).symm

section Step

variable {r : Regs P} {i : In} {h : HostPath stampedFifo}

theorem OnPath.rdEmpty (hp : OnPath r h) : P.fifo.rdEmpty r.fifo = stampedFifo.rdEmpty h.fifo := by
  rw [P.fifo.rdEmpty_eq, stampedFifo.rdEmpty_eq, hp.contents, stored]
  cases stampedFifo.contents h.fifo <;> rfl

theorem OnPath.wrFull (hp : OnPath r h) : P.fifo.wrFull r.fifo = stampedFifo.wrFull h.fifo := by
  rw [P.fifo.wrFull_eq, stampedFifo.wrFull_eq, hp.contents, stored, List.length_map]

theorem OnPath.xldrIn (hp : OnPath r h) (hsrc : r.bootSource = .host) :
    xldrIn r i = h.loaderIn (hostIn r i) := by
  have hboot : toXilinxBoot r i = fromHostLdr r i := by rw [toXilinxBoot, hsrc]
  unfold Bootloader.xldrIn HostPath.loaderIn hostIn
  rw [hboot]
  unfold fromHostLdr
  rw [hp.rdEmpty, hp.port]
  simp only [Bootloader.xldrIn, onPort]

theorem OnPath.rd (hp : OnPath r h) (hsrc : r.bootSource = .host) :
    (regsOut r i).fifoRdReq = h.rd := by
  have hboot : toXilinxBoot r i = fromHostLdr r i := by rw [toXilinxBoot, hsrc]
  have hldr : toHostLdr r i = fromXilinxBoot r i := by rw [toHostLdr, hsrc]
  show (toHostLdr r i).rd = _
  rw [hldr, fromXilinxBoot, hboot, HostPath.rd, ← hp.ldr, ← hp.rdEmpty]
  rfl

/-- One cycle of the core in host mode is one cycle of the path. -/
theorem onPath_step (hp : OnPath r h) (hsrc : r.bootSource = .host) (hr : i.rstN = true)
    (hclear : r.wb.fifoClearBusInt = false) (t : ℕ) :
    OnPath (step r i) (h.step (t, hostIn r i)) := by
  have hrst : (XloaderWb.fifoIn r.wb i.rstN (regsOut r i).fifoRdReq).rstN = true := by
    simp [XloaderWb.fifoIn, hr, hclear]
  have hread : (XloaderWb.fifoIn r.wb i.rstN (regsOut r i).fifoRdReq).rdReq = h.rd := hp.rd hsrc
  refine ⟨?_, ?_, ?_⟩
  · rw [step_xldr, hp.xldrIn hsrc, hp.ldr]
    rfl
  · rw [stored_step (i := (t, hostIn r i)) hr hclear]
    show P.fifo.contents (P.fifo.step r.fifo _) = _
    rw [P.fifo.contents_step _ _ hrst, hread, hp.wrFull, hp.contents]
    congr 1
    show _ = if stampedFifo.wrFull h.fifo then [] else (pushOf r.wb).toList
    unfold pushOf XloaderWb.fifoIn
    cases r.wb.fifoWrreqInt <;> cases stampedFifo.wrFull h.fifo <;> rfl
  · show P.fifo.rdData (P.fifo.step r.fifo _) = (stampedFifo.rdData (h.step (t, hostIn r i)).fifo).1
    cases hrd : h.rd with
    | false =>
      rw [P.fifo.rdData_hold _ _ (hread.trans hrd), hp.port]
      exact (congrArg Prod.fst (stampedFifo.rdData_hold _ _ hrd)).symm
    | true =>
      obtain ⟨e, q, hq⟩ : ∃ e q, stampedFifo.contents h.fifo = e :: q := by
        cases hq : stampedFifo.contents h.fifo with
        | nil => exact absurd hq (rd_iff.mp hrd).1
        | cons e q => exact ⟨e, q, rfl⟩
      have hcontents : P.fifo.contents r.fifo = e.1 :: q.map Prod.fst := by
        rw [hp.contents, stored, hq]
        rfl
      rw [P.fifo.rdData_read _ _ _ _ hrst (hread.trans hrd) hcontents,
        rdData_step (i := (t, hostIn r i)) hr hclear hrd hq]

end Step

/-! ## From START on -/

/-- In the access `a` that begins in cycle `u` the host writes START, the loader rests, and the FIFO
is empty when it starts. -/
structure StartWrite (s : Regs P) (inp : ℕ → In) (u : ℕ) (a : Access) : Prop where
  reachable : Reachable s
  begins : begun (core s inp u).wb (wbIn P (inp u)) = some a
  start : a.csrBit 0 = true
  noSwrst : a.csrBit 5 = false
  source : (core s inp u).bootSource = .host
  bootEn : (inp (u + 2)).bootEn = true
  idle : (core s inp (u + 2)).xldr.state = .idle
  empty : P.fifo.contents (core s inp (u + 3)).fifo = []

/-- In the `n` cycles from `u` on there is no reset, no further write of CSR or of `FIFO_CSR`, no
push into a full FIFO, and DONE is low once the loader has started. -/
structure FeedsOnly (s : Regs P) (inp : ℕ → In) (u n : ℕ) : Prop where
  rstN : ∀ j, j < n → (inp (u + j)).rstN = true
  quiet : ∀ j b, 0 < j → j < n → begun (core s inp (u + j)).wb (wbIn P (inp (u + j))) = some b →
    b.wrote 0#3 = none ∧ b.wrote 6#3 = none
  room : ∀ j, 3 ≤ j → j < n → (pushOf (core s inp (u + j)).wb).isSome = true →
    P.fifo.wrFull (core s inp (u + j)).fifo = false
  notDone : ∀ j, 3 ≤ j → j < n → (xldrIn (core s inp (u + j)) (inp (u + j))).doneSynced = false

/-- DIN as the CCLK edges of the `n` cycles from `a` on sample it at the pins. -/
def pinSamples (s : Regs P) (inp : ℕ → In) (a n : ℕ) : List Bool :=
  collect (fun j =>
    let before := configPins (core s inp (a + j))
    let after := configPins (core s inp (a + j + 1))
    if !before.cclk && after.cclk then [after.din] else []) n

/-- The bits inside the loader that no edge has sampled yet. -/
def coreInLoader (msbf : Bool) (r : Regs P) : List Bool :=
  Feed.pending msbf ⟨r.xldr, P.fifo.contents r.fifo, P.fifo.rdData r.fifo⟩

section Ledgers

variable {l₀ : Ledger} {wb : ℕ → WbMasterOut}

/-- Without a write of CSR its fields stay. -/
theorem csr_kept {l : Ledger} {i : WbMasterOut}
    (h : ∀ b, l.begins i = some b → b.wrote 0#3 = none) :
    (l.step i).csrMsbf = l.csrMsbf ∧ (l.step i).csrClkdiv = l.csrClkdiv := by
  unfold Ledger.step
  cases hopen : l.open_ with
  | some p => exact ⟨rfl, rfl⟩
  | none =>
    by_cases hstrobe : (i.cyc && i.stb) = true
    · have hno := h _ (begins_iff.mpr ⟨hopen, hstrobe, rfl⟩)
      simp only [if_pos hstrobe, Ledger.record, hno]
      exact ⟨rfl, rfl⟩
    · simp [hstrobe]

theorem wrote_of_clear (h₀ : l₀.open_ = none) {t : ℕ} (h : (ledger l₀ wb t).clear = true) :
    ∃ u a, (ledger l₀ wb u).begins (wb u) = some a ∧ t = u + 1 ∧ a.wrote 6#3 ≠ none := by
  unfold Ledger.clear Ledger.wroteAt at h
  cases hopen : (ledger l₀ wb t).open_ with
  | none =>
    rw [hopen] at h
    exact absurd h (by simp)
  | some p =>
    obtain ⟨a, n⟩ := p
    simp only [hopen] at h
    by_cases hn : n = 1
    · obtain ⟨-, -, u, hu, hbegins⟩ := (open_iff h₀).mp hopen
      rw [if_pos hn] at h
      refine ⟨u, a, hbegins, hn ▸ hu, fun hnone => ?_⟩
      rw [hnone] at h
      exact absurd h (by simp)
    · rw [if_neg hn] at h
      exact absurd h (by simp)

end Ledgers

section Run

variable {s : Regs P} {inp : ℕ → In} {u k : ℕ} {a : Access} {l : Ledger}

/-- The access of START goes to CSR. -/
theorem startAccess_reg (hstart : a.csrBit 0 = true) : a.wrote 4#3 = none ∧ a.wrote 5#3 = none := by
  have hreg : a.reg = 0#3 := by
    by_contra hne
    rw [Access.csrBit, Access.wrote, if_neg fun hw => hne hw.2] at hstart
    exact absurd hstart (by simp)
  exact ⟨if_neg fun hw => absurd (hreg.symm.trans hw.2) (by decide),
    if_neg fun hw => absurd (hreg.symm.trans hw.2) (by decide)⟩

theorem csrBit_none {b : Access} {n : ℕ} (h : b.wrote 0#3 = none) : b.csrBit n = false := by
  rw [Access.csrBit, h]
  rfl

/-- The ledger of the bus from cycle `u` on. -/
def busLedger (l : Ledger) (inp : ℕ → In) (u : ℕ) (P : Parts) : ℕ → Ledger :=
  ledger l fun j => wbIn P (inp (u + j))

/-- What is known of the block while only the FIFO is fed. -/
structure Fed (s : Regs P) (inp : ℕ → In) (u k : ℕ) (a : Access) (l : Ledger) : Prop where
  keeps : ∀ j, j ≤ 3 + k → Keeps (core s inp (u + j)).wb (busLedger l inp u P j)
  shut : l.open_ = none
  begins : (busLedger l inp u P 0).begins (wbIn P (inp u)) = some a
  quiet : ∀ j b, 0 < j → j < 3 + k → (busLedger l inp u P j).begins (wbIn P (inp (u + j))) = some b →
    b.wrote 0#3 = none ∧ b.wrote 6#3 = none

theorem fed (hstart : StartWrite s inp u a) (hfeeds : FeedsOnly s inp u (3 + k))
    (hl : Keeps (core s inp u).wb l) : Fed s inp u k a l := by
  have hkeeps : ∀ j, j ≤ 3 + k → Keeps (core s inp (u + j)).wb (busLedger l inp u P j) := fun j hj =>
    keeps_from hl fun i hi => hfeeds.rstN i (Nat.lt_of_lt_of_le hi hj)
  have hbegins : l.begins (wbIn P (inp u)) = some a := (hl.begun_eq _).symm.trans hstart.begins
  refine ⟨hkeeps, (begins_iff.mp hbegins).1, hbegins, fun j b hj hj' hb => ?_⟩
  rw [← (hkeeps j (Nat.le_of_lt hj')).begun_eq] at hb
  exact hfeeds.quiet j b hj hj' hb

/-- No pulse after that of START, and none of SWRST. -/
theorem Fed.pulse (h : Fed s inp u k a l) {n j : ℕ} (hj : 2 ≤ j) (hj' : j ≤ 3 + k)
    (hn : j = 2 → a.csrBit n = false) : (busLedger l inp u P j).pulse n = false := by
  by_contra hp
  have hp' : (busLedger l inp u P j).pulse n = true := by simpa using hp
  obtain ⟨v, b, hb, hbit, rfl⟩ := (pulse_iff h.shut n j).mp hp'
  rcases Nat.eq_zero_or_pos v with rfl | hv
  · have hab : b = a := Option.some.inj (hb.symm.trans h.begins)
    rw [hab, hn rfl] at hbit
    exact absurd hbit (by simp)
  · rw [csrBit_none (h.quiet v b hv (by omega) hb).1] at hbit
    exact absurd hbit (by simp)

theorem Fed.clear (h : Fed s inp u k a l) (hstart : a.csrBit 0 = true) {j : ℕ} (hj' : j ≤ 3 + k) :
    (busLedger l inp u P j).clear = false := by
  by_contra hc
  have hc' : (busLedger l inp u P j).clear = true := by simpa using hc
  obtain ⟨v, b, hb, rfl, hwrote⟩ := wrote_of_clear h.shut hc'
  rcases Nat.eq_zero_or_pos v with rfl | hv
  · have hab : b = a := Option.some.inj (hb.symm.trans h.begins)
    have hreg : a.reg = 0#3 := by
      by_contra hne
      rw [csrBit_none (if_neg fun hw => hne hw.2)] at hstart
      exact absurd hstart (by simp)
    exact hwrote (if_neg fun hw => absurd (hreg.symm.trans (hab ▸ hw.2)) (by decide))
  · exact hwrote (h.quiet v b hv (by omega) hb).2

/-- The flags of CSR are as START was written with. -/
theorem Fed.csr (h : Fed s inp u k a l) {j : ℕ} (hj : 0 < j) (hj' : j ≤ 3 + k) :
    (busLedger l inp u P j).csrMsbf = (l.record a).csrMsbf ∧
      (busLedger l inp u P j).csrClkdiv = (l.record a).csrClkdiv := by
  induction hj with
  | refl =>
    have hone : busLedger l inp u P 1 = l.record a := open_of_begins h.begins
    rw [hone]
    exact ⟨rfl, rfl⟩
  | @step j hj ih =>
    obtain ⟨hm, hc⟩ := ih (Nat.le_of_succ_le hj')
    obtain ⟨hm', hc'⟩ := csr_kept (l := busLedger l inp u P j) (i := wbIn P (inp (u + j)))
      fun b hb => (h.quiet j b hj hj' hb).1
    exact ⟨hm'.trans hm, hc'.trans hc⟩

/-- What is pushed once the loader has started is what the accesses since then write. -/
theorem Fed.pushes (h : Fed s inp u k a l) (hstart : a.csrBit 0 = true) :
    collect (fun j => (busLedger l inp u P (3 + j)).push.toList) k =
      entriesOf (l.xsize, l.xlast) (begunBy l (fun j => wbIn P (inp (u + j))) (2 + k)) := by
  have hlat := csrBit_csr hstart
  have hreg := startAccess_reg hstart
  -- The access of START is under way for three cycles.
  have hnone : (busLedger l inp u P 1).begins (wbIn P (inp (u + 1))) = none := by
    cases hb : (busLedger l inp u P 1).begins (wbIn P (inp (u + 1))) with
    | none => rfl
    | some b =>
      have hapart := @begins_apart l (fun j => wbIn P (inp (u + j))) h.shut 0 1 a b Nat.zero_lt_one
        h.begins hb
      omega
  have hfirst : begunBy l (fun j => wbIn P (inp (u + j))) 2 = [a] := by
    have hzero : ((ledger l (fun j => wbIn P (inp (u + j))) 0).begins (wbIn P (inp (u + 0)))) = some a :=
      h.begins
    have hone : ((ledger l (fun j => wbIn P (inp (u + j))) 1).begins (wbIn P (inp (u + 1)))) = none :=
      hnone
    rw [begunBy_succ, begunBy_succ, hzero, hone]
    rfl
  have hearly := @pushes_begunBy l (fun j => wbIn P (inp (u + j))) h.shut 2
  have hall := @pushes_begunBy l (fun j => wbIn P (inp (u + j))) h.shut (2 + k)
  rw [hfirst, entriesOf, hreg.1, hreg.2] at hearly
  rw [show 2 + k + 1 = 3 + k by omega, collect_add, hearly] at hall
  exact hall

/-- Once the host is the boot source it stays so. -/
theorem source_from (hstart : StartWrite s inp u a) {n : ℕ} (hrst : ∀ j, j < n → (inp (u + j)).rstN = true) :
    (core s inp (u + n)).bootSource = .host := by
  induction n with
  | zero => exact hstart.source
  | succ n ih =>
    rw [← Nat.add_assoc, core_succ]
    exact (HostFlash.source_step (hrst n (Nat.lt_succ_self n)) (ih fun j hj => hrst j (Nat.lt_succ_of_lt hj))).1

/-- Two cycles after the access the loader takes START. -/
theorem loader_starts (hstart : StartWrite s inp u a) (hfeeds : FeedsOnly s inp u (3 + k))
    (hfed : Fed s inp u k a l) : (core s inp (u + 3)).xldr.state = .extendProg := by
  have hr2 : (inp (u + 2)).rstN = true := hfeeds.rstN 2 (by omega)
  have hkeeps := hfed.keeps 2 (by omega)
  have hsource := source_from hstart (n := 2) fun j hj => hfeeds.rstN j (by omega)
  have hboot : toXilinxBoot (core s inp (u + 2)) (inp (u + 2)) =
      fromHostLdr (core s inp (u + 2)) (inp (u + 2)) := by rw [toXilinxBoot, hsource]
  have hpulse : (busLedger l inp u P 2).pulse 0 = true :=
    (pulse_iff hfed.shut 0 2).mpr ⟨0, a, hfed.begins, hstart.start, rfl⟩
  have hswrst : (xldrIn (core s inp (u + 2)) (inp (u + 2))).csrSwrst = false := by
    show (toXilinxBoot _ _).swrst = false
    rw [hboot, fromHostLdr, hkeeps.pulses.2.1]
    exact hfed.pulse (Nat.le_refl 2) (by omega) fun _ => hstart.noSwrst
  have hgo : (xldrIn (core s inp (u + 2)) (inp (u + 2))).csrStart = true := by
    show (toXilinxBoot _ _).start = true
    rw [hboot, fromHostLdr, hkeeps.pulses.1, hpulse, hstart.bootEn]
    rfl
  exact (XilinxLoader.extendProg_of_start ⟨hr2, hswrst⟩ hgo hstart.idle).1

/-- What the path is fed with from then on. -/
def hostWave (s : Regs P) (inp : ℕ → In) (u j : ℕ) : HostIn :=
  hostIn (core s inp (u + 3 + j)) (inp (u + 3 + j))

theorem hostWave_calm (hfeeds : FeedsOnly s inp u (3 + k)) (hfed : Fed s inp u k a l)
    (hstart : a.csrBit 0 = true) {j : ℕ} (hj : j < k) :
    Calm (l.record a).csrMsbf (l.record a).csrClkdiv (hostWave s inp u j) := by
  have hat : u + 3 + j = u + (3 + j) := Nat.add_assoc ..
  unfold hostWave
  rw [hat]
  have hkeeps := hfed.keeps (3 + j) (by omega)
  have hpulse : ∀ n, (busLedger l inp u P (3 + j)).pulse n = false := fun n =>
    hfed.pulse (by omega) (by omega) fun h => absurd h (by omega)
  obtain ⟨hm, hc⟩ := hfed.csr (j := 3 + j) (by omega) (by omega)
  refine ⟨hfeeds.rstN _ (by omega), ?_, ?_, ?_, ?_, ?_, hfeeds.notDone _ (by omega) (by omega)⟩
  · exact hkeeps.pulses.2.1.trans (hpulse 5)
  · show ((core s inp (u + (3 + j))).wb.csrStart && _) = false
    rw [hkeeps.pulses.1, hpulse]
    rfl
  · exact hkeeps.csrMsbf.trans hm
  · exact hkeeps.csrClkdiv.trans hc
  · exact hkeeps.clear.trans (hfed.clear hstart (by omega))

/-- The core runs on the path. -/
theorem onPath_run (hstart : StartWrite s inp u a) (hfeeds : FeedsOnly s inp u (3 + k))
    (hfed : Fed s inp u k a l) {h₀ : HostPath stampedFifo} (h : OnPath (core s inp (u + 3)) h₀) {j : ℕ}
    (hj : j ≤ k) : OnPath (core s inp (u + 3 + j)) (trace h₀ (hostWave s inp u) j) := by
  induction j with
  | zero => exact h
  | succ j ih =>
    have hcalm := hostWave_calm hfeeds hfed hstart.start (Nat.lt_of_succ_le hj)
    have hsource : (core s inp (u + 3 + j)).bootSource = .host := by
      rw [Nat.add_assoc]
      exact source_from hstart fun i hi => hfeeds.rstN i (by omega)
    rw [← Nat.add_assoc, core_succ, trace_succ]
    exact onPath_step (ih (Nat.le_of_succ_le hj)) hsource hcalm.rstN hcalm.fifoClearBus j

/-- What the configuration pins carry while the bus only feeds the FIFO. -/
theorem conserves_of_entries (hstart : StartWrite s inp u a) (hfeeds : FeedsOnly s inp u (3 + k))
    (hlast : LastOnlyFinal (entriesOf ((core s inp u).wb.fifoInInt.xsize,
      (core s inp u).wb.fifoInInt.xlast) (accesses s inp u (2 + k)))) :
    (pinSamples s inp (u + 3) k = [] ∧ (Opening (core s inp (u + 3 + k)).xldr.state ∨
        (core s inp (u + 3 + k)).xldr.state = .idle)) ∨
      pinSamples s inp (u + 3) k ++ coreInLoader (a.csrBit 4) (core s inp (u + 3 + k)) ++
          (P.fifo.contents (core s inp (u + 3 + k)).fifo).flatMap (FifoEntry.bits (a.csrBit 4)) =
        (entriesOf ((core s inp u).wb.fifoInInt.xsize, (core s inp u).wb.fifoInInt.xlast)
          (accesses s inp u (2 + k))).flatMap (FifoEntry.bits (a.csrBit 4)) := by
  generalize hes₀ : entriesOf ((core s inp u).wb.fifoInInt.xsize, (core s inp u).wb.fifoInInt.xlast)
    (accesses s inp u (2 + k)) = es at hlast ⊢
  obtain ⟨l, hl⟩ := hasLedger_run hstart.reachable inp u
  have hfed := fed hstart hfeeds hl
  have hmsbf : (l.record a).csrMsbf = a.csrBit 4 := by
    have hbit := hstart.start
    unfold Access.csrBit at hbit ⊢
    unfold Ledger.record
    cases hw : a.wrote 0#3 with
    | none =>
      rw [hw] at hbit
      exact absurd hbit (by simp)
    | some d => rfl
  obtain ⟨h₀, hpath₀⟩ := exists_onPath (core s inp (u + 3))
  have hpath := fun j (hj : j ≤ k) => onPath_run hstart hfeeds hfed hpath₀ hj
  have hsampled : sampled h₀ (hostWave s inp u) 0 k = pinSamples s inp (u + 3) k := by
    refine collect_congr fun j hj => ?_
    have hnow := (hpath j (Nat.le_of_lt hj)).ldr
    have hnext := (hpath (j + 1) hj).ldr
    show clocked (trace h₀ (hostWave s inp u) (0 + j)).ldr (trace h₀ (hostWave s inp u) (0 + (j + 1))).ldr = _
    rw [Nat.zero_add, Nat.zero_add, ← hnow, ← hnext]
    rfl
  have haccepted : accepted h₀ (hostWave s inp u) 0 k = es := by
    have hpushes := hfed.pushes hstart.start
    have hes : es = entriesOf (l.xsize, l.xlast) (begunBy l (fun j => wbIn P (inp (u + j))) (2 + k)) := by
      rw [← hes₀, hl.xsize, hl.xlast]
      congr 1
      refine collect_congr fun j hj => ?_
      rw [(hfed.keeps j (by omega)).begun_eq]
      rfl
    rw [hes, ← hpushes]
    refine collect_congr fun j hj => ?_
    have hkeeps := hfed.keeps (3 + j) (by omega)
    have hroom := hfeeds.room (3 + j) (by omega) (by omega)
    have hat : u + 3 + j = u + (3 + j) := Nat.add_assoc ..
    unfold accepts
    rw [Nat.zero_add, ← (hpath j (Nat.le_of_lt hj)).wrFull]
    show (if _ then [] else (pushOf (core s inp (u + 3 + j)).wb).toList) = _
    rw [hat]
    have hpush : pushOf (core s inp (u + (3 + j))).wb = (busLedger l inp u P (3 + j)).push := hkeeps.push
    rw [hpush] at hroom ⊢
    cases hp : (busLedger l inp u P (3 + j)).push with
    | none => split <;> rfl
    | some e => rw [hroom (by rw [hp]; rfl)]; rfl
  have hempty : stored h₀ = [] := hpath₀.contents.symm.trans hstart.empty
  have hentries : entriesFrom h₀ (hostWave s inp u) 0 k = es := by
    have hzero : stored (trace h₀ (hostWave s inp u) 0) = [] := hempty
    rw [entriesFrom, hzero, List.nil_append, Nat.sub_zero, haccepted]
  have hstate : (trace h₀ (hostWave s inp u) 0).ldr.state = .extendProg :=
    (congrArg XilinxLoader.Regs.state hpath₀.ldr).symm.trans (loader_starts hstart hfeeds hfed)
  have hend := hpath k (Nat.le_refl k)
  have hstands : Stands (a.csrBit 4) h₀ (hostWave s inp u) 0 k k := by
    refine stands_run (c := (l.record a).csrClkdiv) hstate (hentries.symm ▸ hlast) (fun j hj => ?_)
      fun j hj => .inl (by omega)
    rw [Nat.zero_add, ← hmsbf]
    exact hostWave_calm hfeeds hfed hstart.start hj
  cases hstands with
  | opening hs _ hnone =>
    rw [Nat.zero_add, ← hend.ldr] at hs
    exact .inl ⟨hsampled.symm.trans hnone, .inl hs⟩
  | abandoned hs hnone =>
    rw [Nat.zero_add, ← hend.ldr] at hs
    exact .inl ⟨hsampled.symm.trans hnone, .inr hs⟩
  | loading h =>
    right
    have hsum := h.sum
    rw [Nat.zero_add, hentries, hsampled, Feed.remaining] at hsum
    have hqueue : (feedAt h₀ (hostWave s inp u) k k).queue =
        P.fifo.contents (core s inp (u + 3 + k)).fifo := by
      rw [hend.contents]
      simp [feedAt, accepted, collect]
    have hpend : (feedAt h₀ (hostWave s inp u) k k).pending (a.csrBit 4) =
        coreInLoader (a.csrBit 4) (core s inp (u + 3 + k)) := by
      unfold coreInLoader
      rw [hend.ldr, hend.port]
      rfl
    rw [hqueue, hpend, ← List.append_assoc] at hsum
    exact hsum

end Run

/-- From a START of the host on, as long as the bus only feeds the FIFO, the configuration pins carry
what the bus writes: what CCLK edges have sampled, what is inside the loader and what is in the FIFO
are together the bits of the entries that the accesses have written, in order, unless INIT_B has not
answered and nothing was sampled. -/
theorem core_conserves (P : Parts) (s : Regs P) (inp : ℕ → In) (u k : ℕ) (a : Access)
    (hstart : StartWrite s inp u a) (hfeeds : FeedsOnly s inp u (3 + k)) :
    let es := entriesOf ((core s inp u).wb.fifoInInt.xsize, (core s inp u).wb.fifoInInt.xlast)
      (accesses s inp u (2 + k))
    LastOnlyFinal es →
      (pinSamples s inp (u + 3) k = [] ∧ (Opening (core s inp (u + 3 + k)).xldr.state ∨
        (core s inp (u + 3 + k)).xldr.state = .idle)) ∨
      pinSamples s inp (u + 3) k ++ coreInLoader (a.csrBit 4) (core s inp (u + 3 + k)) ++
          (P.fifo.contents (core s inp (u + 3 + k)).fifo).flatMap (FifoEntry.bits (a.csrBit 4)) =
        es.flatMap (FifoEntry.bits (a.csrBit 4)) :=
  fun hlast => conserves_of_entries hstart hfeeds hlast

/-! ## A silent bus -/

/-- While the bus is silent no access begins and nothing is pushed. -/
theorem closed_from {s : Regs P} {inp : ℕ → In} {t u : ℕ} (hclosed : Closed (core s inp t).wb)
    (hsilent : ∀ v, t ≤ v → (inp v).rstN = true ∧ (wbIn P (inp v)).cyc = false) (htu : t ≤ u) :
    Closed (core s inp u).wb := by
  induction htu with
  | refl => exact hclosed
  | @step u htu ih =>
    obtain ⟨hrst, hcyc⟩ := hsilent u htu
    rw [core_succ, step_wb, hrst]
    exact closed_silent ih (by rw [hcyc, Bool.false_and])

theorem begun_silent {w : XloaderWb.Regs} {wb : WbMasterOut} (hcyc : wb.cyc = false) : begun w wb = none := by
  simp [begun, hcyc]

theorem closed_push {w : XloaderWb.Regs} (h : Closed w) : pushOf w = none := by
  simp [pushOf, h.fifoWrreqInt]

/-- DONE of an emulated card that stays low. -/
theorem done_low {content : BitVec 24 → Byte} {s : Regs (standIns content)} {inp : ℕ → In}
    (hs : s.doneSync = (false, false)) (hlow : ∀ t, (inp t).xlxDone = false) (t : ℕ) (i : In) :
    (xldrIn (core s inp t) i).doneSynced = false := by
  have hsync : (core s inp t).doneSync = (false, false) := by
    induction t with
    | zero => exact hs
    | succ t ih =>
      have hstep : (core s inp (t + 1)).doneSync = (standIns content).syncFfs.step (core s inp t).doneSync
          (syncIn (inp t) (inp t).xlxDone) := rfl
      rw [hstep, ih, hlow t]
      show (if _ then ((false, false) : Bool × Bool) else (false, false)) = _
      split <;> rfl
  show ((core s inp t).doneSync).2 = false
  rw [hsync]

/-- After the trigger sequence the host writes START, the flags of a last entry of two bytes, and its
data.  INIT_B answers when PROG_B is high again. -/
def startAndFeed (t : ℕ) : In :=
  { Isolation.passiveIn true with
    bootEn := true
    xlxInitB := decide (t < 100 ∨ 1040 ≤ t)
    wb :=
      if 1 ≤ t ∧ t < 17 then
        HostFlash.writeBus 4#32 ((BootTrigger.triggerSequence[(t - 1) / 2]?.getD 0#8).setWidth 32)
      else if 30 ≤ t ∧ t < 34 then HostFlash.writeBus 0#32 0x11#32
      else if 34 ≤ t ∧ t < 36 then HostFlash.writeBus 0x10#32 0x5#32
      else if 36 ≤ t ∧ t < 38 then HostFlash.writeBus 0x14#32 0xaabb0000#32
      else default }

theorem startAndFeed_silent {t : ℕ} (ht : 38 ≤ t) :
    (startAndFeed t).rstN = true ∧ (wbIn (standIns fun _ => 0xff#8) (startAndFeed t)).cyc = false := by
  have hbus : (startAndFeed t).wb = default := by
    unfold startAndFeed
    dsimp only
    rw [if_neg (by omega), if_neg (by omega), if_neg (by omega), if_neg (by omega)]
  refine ⟨rfl, ?_⟩
  rw [wbIn, hbus]
  rfl

theorem startAndFeed_starts :
    StartWrite Isolation.afterReset startAndFeed 30 ⟨true, 0#3, 0x11#32⟩ :=
  ⟨Isolation.afterReset_reachable, by decide +kernel, by decide, by decide, by decide +kernel,
    by decide, by decide +kernel, by decide +kernel⟩

theorem startAndFeed_closed {t : ℕ} (ht : 45 ≤ t) : Closed (core Isolation.afterReset startAndFeed t).wb := by
  obtain ⟨l, hl⟩ := hasLedger_run Isolation.afterReset_reachable startAndFeed 45
  have hfree : (core Isolation.afterReset startAndFeed 45).wb.ackInProgress = false := by decide +kernel
  rw [hl.begins] at hfree
  have hshut : l.open_ = none := by simpa using hfree
  exact closed_from (hl.shut hshut) (fun v hv => startAndFeed_silent (by omega)) ht

theorem startAndFeed_feeds (n : ℕ) : FeedsOnly Isolation.afterReset startAndFeed 30 n := by
  have hquiet : ∀ j, j < 8 → 0 < j → (begun (core Isolation.afterReset startAndFeed (30 + j)).wb
      (wbIn (standIns fun _ => 0xff#8) (startAndFeed (30 + j)))).all
        (fun b => (b.wrote 0#3).isNone && (b.wrote 6#3).isNone) = true := by
    decide +kernel
  have hroom : ∀ j, j < 15 → 3 ≤ j → (pushOf (core Isolation.afterReset startAndFeed (30 + j)).wb).isSome = true →
      (standIns fun _ => 0xff#8).fifo.wrFull (core Isolation.afterReset startAndFeed (30 + j)).fifo = false := by
    decide +kernel
  refine ⟨fun _ _ => rfl, fun j b hj _ hb => ?_, fun j hj _ hp => ?_, fun j _ _ => done_low rfl (fun _ => rfl) _ _⟩
  · rcases Nat.lt_or_ge j 8 with hlt | hge
    · have hall := hquiet j hlt hj
      rw [hb] at hall
      simpa using hall
    · rw [begun_silent (startAndFeed_silent (by omega)).2] at hb
      exact absurd hb.symm (Option.some_ne_none b)
  · rcases Nat.lt_or_ge j 15 with hlt | hge
    · exact hroom j hlt hj hp
    · rw [closed_push (startAndFeed_closed (t := 30 + j) (by omega))] at hp
      exact absurd hp Bool.false_ne_true

/-- After these cycles no access begins. -/
theorem startAndFeed_accesses (n : ℕ) : accesses Isolation.afterReset startAndFeed 30 (8 + n) =
    [⟨true, 0#3, 0x11#32⟩, ⟨true, 4#3, 0x5#32⟩, ⟨true, 5#3, 0xaabb0000#32⟩] := by
  have hfirst : accesses Isolation.afterReset startAndFeed 30 8 =
      [⟨true, 0#3, 0x11#32⟩, ⟨true, 4#3, 0x5#32⟩, ⟨true, 5#3, 0xaabb0000#32⟩] := by
    decide +kernel
  have hrest : ∀ j, j < n → (begun (core Isolation.afterReset startAndFeed (30 + (8 + j))).wb
      (wbIn (standIns fun _ => 0xff#8) (startAndFeed (30 + (8 + j))))).toList = [] := by
    intro j _
    rw [begun_silent (startAndFeed_silent (by omega)).2]
    rfl
  rw [accesses, collect_add]
  show accesses Isolation.afterReset startAndFeed 30 8 ++ _ = _
  rw [hfirst, collect_eq_nil hrest]
  rfl

set_option maxRecDepth 20000 in
/-- By then the entry is out, and the loader waits for DONE. -/
theorem startAndFeed_ends : (core Isolation.afterReset startAndFeed 1093).xldr.state = .waitDone ∧
    (standIns fun _ => 0xff#8).fifo.contents (core Isolation.afterReset startAndFeed 1093).fifo = [] := by
  decide +kernel

theorem inLoader_waitDone {r : Regs P} {msbf : Bool} (hs : r.xldr.state = .waitDone) : coreInLoader msbf r = [] := by
  unfold coreInLoader Feed.pending
  simp only [hs]

/-- So nothing is held back. -/
theorem startAndFeed_out {bits : List Bool}
    (h : (pinSamples Isolation.afterReset startAndFeed 33 1060 = [] ∧
        (Opening (core Isolation.afterReset startAndFeed 1093).xldr.state ∨
          (core Isolation.afterReset startAndFeed 1093).xldr.state = .idle)) ∨
      pinSamples Isolation.afterReset startAndFeed 33 1060 ++
            coreInLoader true (core Isolation.afterReset startAndFeed 1093) ++
          ((standIns fun _ => 0xff#8).fifo.contents (core Isolation.afterReset startAndFeed 1093).fifo).flatMap
            (FifoEntry.bits true) = bits) :
    pinSamples Isolation.afterReset startAndFeed 33 1060 = bits := by
  obtain ⟨hs, hempty⟩ := startAndFeed_ends
  rcases h with ⟨-, hno⟩ | hsum
  · unfold Opening at hno
    rw [hs] at hno
    exact absurd hno (by decide)
  · rw [inLoader_waitDone hs, hempty, List.flatMap_nil, List.append_nil, List.append_nil] at hsum
    exact hsum

/-- Its two bytes have come out at the pins. -/
theorem core_conserves_startAndFeed :
    pinSamples Isolation.afterReset startAndFeed 33 1060 = [0xaa#8, 0xbb#8].flatMap byteBits := by
  have h := core_conserves (standIns fun _ => 0xff#8) Isolation.afterReset startAndFeed 30 1060
    ⟨true, 0#3, 0x11#32⟩ startAndFeed_starts (startAndFeed_feeds _)
  have hentries : entriesOf ((core Isolation.afterReset startAndFeed 30).wb.fifoInInt.xsize,
      (core Isolation.afterReset startAndFeed 30).wb.fifoInInt.xlast)
        (accesses Isolation.afterReset startAndFeed 30 (2 + 1060)) = [⟨1#2, true, 0xaabb0000#32⟩] := by
    rw [startAndFeed_accesses 1054]
    decide +kernel
  simp only [hentries] at h
  exact (startAndFeed_out (h (by simp [LastOnlyFinal]))).trans (by decide)

end Svec.Boot.HostMode
