/-
  Boot/HostFlash.lean --- the host's flash transfers.

  The host and the flash boot engine share `spi_master`: their start, data and
  select lines are or-ed, and a load of FAR sends the engine's controller back to
  `IDLE`.  That happens a cycle after the write was accepted.  If the controller
  launches a byte of its own in this very cycle, `spi_master` is busy when the
  start of the host arrives, and ignores it; in every other case the line is free
  from then on and the byte of the host goes out as written.
-/
import Svec.Boot.Isolation

set_option autoImplicit false

namespace Svec.Boot.HostFlash

open Svec.Data Svec.Sync Svec.Hdl Svec.Hdl.Bootloader Svec.Boot.Isolation

/-! ## The transfers of `spi_master`, and a write of FAR -/

/-- `spi_master` at its ports: a start is taken when no transfer is under way and ignored
otherwise, and `ready_o` is low in the cycle of a start and during a transfer. -/
structure MasterRuns (i : ℕ → SpiIn) (o : ℕ → SpiOut) (busy : ℕ → Bool) : Prop where
  ready : ∀ t, (o t).ready = true → busy t = false ∧ (i t).start = false
  taken : ∀ t, (i t).rstN = true → busy t = false → (i t).start = true → busy (t + 1) = true
  idle : ∀ t, (i t).rstN = true → busy t = false → (i t).start = false → busy (t + 1) = false

variable {P : Parts}

/-- The register block accepts a write of FAR. -/
structure FarWrite (r : Regs P) (i : In) : Prop where
  free : r.wb.ackInProgress = false
  strobe : (i.wb.cyc && i.wb.stb) = true
  we : i.wb.we = true
  adr : regAdr (wbIn P i) = 2#3

/-- A write of FAR with XFER, accepted in cycle `t` while READY is 1 and the host is the boot
source.  The bus holds its data until the acknowledge, and there is no reset from then on. -/
structure HostWrite (s : Regs P) (inp : ℕ → In) (t : ℕ) : Prop where
  far : FarWrite (core s inp t) (inp t)
  xfer : (inp t).wb.dat.getLsbD 8 = true
  ready : (spiOut (core s inp t) (inp t)).ready = true
  source : (core s inp t).bootSource = .host
  held : (inp (t + 1)).wb.dat = (inp t).wb.dat
  running : ∀ u, t ≤ u → (inp u).rstN = true

/-- `spi_master` takes a start. -/
def Starts (s : Regs P) (inp : ℕ → In) (busy : ℕ → Bool) (u : ℕ) : Prop :=
  busy u = false ∧ (spiIn (core s inp u) (inp u)).start = true

/-- The write accepted in cycle `t` starts one transfer, with the byte and the select bit that
were written, and READY comes back when it is over.  Any other transfer is that of a later write
of FAR. -/
structure OneTransfer (s : Regs P) (inp : ℕ → In) (busy : ℕ → Bool) (t : ℕ) : Prop where
  starts : Starts s inp busy (t + 2)
  byte : (spiIn (core s inp (t + 2)) (inp (t + 2))).data = (inp t).wb.dat.extractLsb' 0 8
  only : ∀ u, t < u → Starts s inp busy u →
    u = t + 2 ∨ ∃ k, t < k ∧ u = k + 2 ∧ FarWrite (core s inp k) (inp k)
  cs : ∀ u, t + 2 ≤ u → (∀ k, t < k → k < u → ¬ FarWrite (core s inp k) (inp k)) →
    (spiIn (core s inp u) (inp u)).cs = (inp t).wb.dat.getLsbD 10
  ready : ∀ u, t + 2 ≤ u → (spiOut (core s inp u) (inp u)).ready = true → t + 3 < u ∧ busy u = false

/-- The controller sends the next byte of an address, or takes a request of the engine. -/
def Launches (r : Regs P) : Prop :=
  (r.m25p.state = .csel ∨ r.m25p.state = .command ∨ r.m25p.state = .addr0 ∨ r.m25p.state = .addr1 ∨
    r.m25p.state = .addr2) ∨
  (r.m25p.state = .idle ∧ (r.flash.flashSetAddr = true ∨ r.flash.flashRead = true))

/-! ## The controller under the host -/

section Step

variable {r : Regs P} {i : In}

/-- With READY at 1 the controller launches a byte in the next cycle, or does not. -/
theorem spiStart_step (hr : i.rstN = true) (hload : (farOut r i).dataLoad = false)
    (hready : (spiOut r i).ready = true) :
    (step r i).m25p.spiStart = true ↔ Launches r := by
  have hload' : (m25pIn r i).far.dataLoad = false := hload
  have hready' : (m25pIn r i).spiReady = true := hready
  have hrst : (m25pIn r i).rstN = true := hr
  show (M25pFlash.pMainFsm r.m25p (m25pIn r i)).spiStart = true ↔ _
  unfold M25pFlash.pMainFsm Launches
  rw [hrst, hload', hready']
  simp only [Bool.not_true, Bool.false_eq_true, if_false]
  cases hs : r.m25p.state <;> simp only [if_true] <;> try simp
  have hset : (m25pIn r i).setAddr = r.flash.flashSetAddr := rfl
  have hread : (m25pIn r i).read = r.flash.flashRead := rfl
  rw [hset, hread]
  cases r.flash.flashSetAddr <;> cases r.flash.flashRead <;> simp

/-- The line is the host's alone: the engine is held in reset, and its controller drives
nothing. -/
structure Quiescent (r : Regs P) : Prop where
  source : r.bootSource = .host
  setAddr : r.flash.flashSetAddr = false
  read : r.flash.flashRead = false
  state : r.m25p.state = .idle
  start : r.m25p.spiStart = false
  cs : r.m25p.spiCs = false
  wdata : r.m25p.spiWdata = 0#8

/-- Once the host is the boot source the engine makes no request. -/
theorem source_step (hr : i.rstN = true) (hsrc : r.bootSource = .host) :
    (step r i).bootSource = .host ∧ (step r i).flash.flashSetAddr = false ∧
      (step r i).flash.flashRead = false := by
  refine ⟨?_, ?_, ?_⟩
  · cases ht : r.trig.bootTrigP1Int <;> simp [pSelectBootMode, hr, ht, hsrc]
  · simp [FlashBoot.step, FlashBoot.pMain, flashIn, hr, hsrc]
  · simp [FlashBoot.step, FlashBoot.pMain, flashIn, hr, hsrc]

/-- A load of FAR sends the controller to `IDLE`. -/
theorem quiescent_of_load (hr : i.rstN = true) (hsrc : r.bootSource = .host)
    (hload : (farOut r i).dataLoad = true) : Quiescent (step r i) := by
  obtain ⟨hsrc', hset, hread⟩ := source_step hr hsrc
  have hload' : (m25pIn r i).far.dataLoad = true := hload
  have hrst : (m25pIn r i).rstN = true := hr
  refine ⟨hsrc', hset, hread, ?_, ?_, ?_, ?_⟩ <;>
    simp [M25pFlash.step, M25pFlash.pMainFsm, hrst, hload']

theorem Quiescent.step (h : Quiescent r) (hr : i.rstN = true) : Quiescent (step r i) := by
  cases hload : (farOut r i).dataLoad with
  | true => exact quiescent_of_load hr h.source hload
  | false =>
    obtain ⟨hsrc', hset, hread⟩ := source_step hr h.source
    have hload' : (m25pIn r i).far.dataLoad = false := hload
    have hrst : (m25pIn r i).rstN = true := hr
    have hset' : (m25pIn r i).setAddr = false := h.setAddr
    have hread' : (m25pIn r i).read = false := h.read
    refine ⟨hsrc', hset, hread, ?_, ?_, ?_, ?_⟩ <;>
      simp [M25pFlash.step, M25pFlash.pMainFsm, hrst, hload', hset', hread', h.state, h.cs, h.wdata]

/-- The start of the host is the load of the cycle before, with XFER. -/
theorem spiStartHost_step (hr : i.rstN = true) :
    (step r i).m25p.spiStartHost = (r.wb.farDataLoad && r.wb.farXferInt) := by
  have hrst : (m25pIn r i).rstN = true := hr
  have hload : (m25pIn r i).far.dataLoad = r.wb.farDataLoad := rfl
  have hxfer : (m25pIn r i).far.xfer = r.wb.farXferInt := rfl
  cases h : r.wb.farDataLoad <;> simp [M25pFlash.step, M25pFlash.pHostSpiRegisters, hrst, hload, hxfer, h]

theorem Quiescent.spiIn_start (h : Quiescent r) : (spiIn r i).start = r.m25p.spiStartHost := by
  simp [Bootloader.spiIn, M25pFlash.spiIn, h.start]

theorem Quiescent.spiIn_cs (h : Quiescent r) : (spiIn r i).cs = r.wb.farCsInt := by
  have hcs : (farOut r i).cs = r.wb.farCsInt := rfl
  simp [Bootloader.spiIn, M25pFlash.spiIn, h.cs, hcs]

theorem Quiescent.spiIn_data (h : Quiescent r) : (spiIn r i).data = r.m25p.spiWdataHost := by
  simp [Bootloader.spiIn, M25pFlash.spiIn, h.wdata]

end Step

/-! ## The register block -/

section Block

variable {r : Regs P} {i : In}

/-- What an accepted write of FAR leaves in the block. -/
theorem FarWrite.loads (h : FarWrite r i) (hr : i.rstN = true) :
    (step r i).wb.ackInProgress = true ∧ (step r i).wb.farDataLoad = true ∧
      (step r i).wb.farXferInt = i.wb.dat.getLsbD 8 ∧ (step r i).wb.farCsInt = i.wb.dat.getLsbD 10 := by
  have hfront := front_succ r i
  have hfree : (front r.wb).ackInProgress = false := h.free
  have hstrobe : ((wbIn P i).cyc && (wbIn P i).stb) = true := by simpa [wbIn] using h.strobe
  have hwe : (wbIn P i).we = true := by simpa [wbIn] using h.we
  have hdat : (wbIn P i).dat = i.wb.dat := by simp [wbIn]
  simp only [Front.step, hr, hfree, hstrobe, hwe, h.adr, hdat, Bool.not_true, Bool.false_eq_true,
    if_false, if_true, decide_true, Bool.and_true, Bool.or_true] at hfront
  exact ⟨congrArg Front.ackInProgress hfront, congrArg Front.farDataLoad hfront,
    congrArg Front.farXferInt hfront, congrArg Front.farCsInt hfront⟩

/-- Without one the block keeps its select bit, and loads nothing. -/
theorem no_load (htidy : (front r.wb).Tidy) (hr : i.rstN = true) (h : ¬ FarWrite r i) :
    (step r i).wb.farDataLoad = false ∧ (step r i).wb.farCsInt = r.wb.farCsInt := by
  have hfront := front_succ r i
  rw [hr] at hfront
  cases hopen : (front r.wb).ackInProgress with
  | true =>
    simp only [Front.step, hopen, Bool.not_true, Bool.false_eq_true, if_false, if_true] at hfront
    exact ⟨congrArg Front.farDataLoad hfront, congrArg Front.farCsInt hfront⟩
  | false =>
    have hload : (front r.wb).farDataLoad = false := (htidy.closed hopen).2.2
    cases hstrobe : (wbIn P i).cyc && (wbIn P i).stb with
    | false =>
      rw [Front.step_silent hopen hstrobe] at hfront
      exact ⟨(congrArg Front.farDataLoad hfront).trans hload, congrArg Front.farCsInt hfront⟩
    | true =>
      have hother : ((wbIn P i).we && decide (regAdr (wbIn P i) = 2#3)) = false := by
        by_contra hfar
        rw [Bool.not_eq_false, Bool.and_eq_true, decide_eq_true_eq] at hfar
        exact h ⟨hopen, by simpa [wbIn] using hstrobe, by simpa [wbIn] using hfar.1, hfar.2⟩
      simp only [Front.step, hopen, hstrobe, hother, hload, Bool.not_true, Bool.false_eq_true, if_false,
        if_true, Bool.or_false] at hfront
      exact ⟨congrArg Front.farDataLoad hfront, congrArg Front.farCsInt hfront⟩

end Block

/-! ## The run after the write -/

section Run

variable {s : Regs P} {inp : ℕ → In} {busy : ℕ → Bool} {t : ℕ}

theorem HostWrite.quiescent (h : HostWrite s inp t) {u : ℕ} (hu : t + 2 ≤ u) :
    Quiescent (core s inp u) := by
  induction hu with
  | refl =>
    have hr := h.running t (Nat.le_refl t)
    exact quiescent_of_load (h.running (t + 1) (Nat.le_succ t)) (source_step hr h.source).1
      (h.far.loads hr).2.1
  | step hu ih => exact ih.step (h.running _ (Nat.le_trans (Nat.le_add_right t 2) hu))

/-- The start of the host comes two cycles after a write of FAR. -/
theorem HostWrite.start_host (hs : Reachable s) (h : HostWrite s inp t) {k : ℕ} (hk : t ≤ k)
    (hstart : (core s inp (k + 2)).m25p.spiStartHost = true) : FarWrite (core s inp k) (inp k) := by
  rw [core_succ, spiStartHost_step (h.running (k + 1) (by omega)), Bool.and_eq_true] at hstart
  by_contra hfar
  have hload := (no_load (tidy_run hs.tidy inp k) (h.running k hk) hfar).1
  exact Bool.false_ne_true (hload.symm.trans hstart.1)

theorem HostWrite.starts_in_time (h : HostWrite s inp t) :
    (spiIn (core s inp (t + 2)) (inp (t + 2))).start = true := by
  obtain ⟨-, hload, hxfer, -⟩ := h.far.loads (h.running t (Nat.le_refl t))
  rw [(h.quiescent (Nat.le_refl _)).spiIn_start, core_succ,
    spiStartHost_step (h.running (t + 1) (Nat.le_succ t)), core_succ, hload, hxfer, h.xfer]
  rfl

/-- In the cycle between the write and its start only the controller can start a transfer. -/
theorem HostWrite.start_between (hs : Reachable s) (h : HostWrite s inp t) :
    (spiIn (core s inp (t + 1)) (inp (t + 1))).start = true ↔ Launches (core s inp t) := by
  have hr := h.running t (Nat.le_refl t)
  have hload : (core s inp t).wb.farDataLoad = false := ((tidy_run hs.tidy inp t).closed h.far.free).2.2
  have hhost : (core s inp (t + 1)).m25p.spiStartHost = false := by
    rw [core_succ, spiStartHost_step hr, hload]
    rfl
  rw [← spiStart_step hr hload h.ready, ← core_succ]
  simp [spiIn, M25pFlash.spiIn, hhost]

theorem HostWrite.byte (h : HostWrite s inp t) :
    (spiIn (core s inp (t + 2)) (inp (t + 2))).data = (inp t).wb.dat.extractLsb' 0 8 := by
  obtain ⟨-, hload, -, -⟩ := h.far.loads (h.running t (Nat.le_refl t))
  have hload' : (m25pIn (core s inp (t + 1)) (inp (t + 1))).far.dataLoad = true := hload
  have hrst : (m25pIn (core s inp (t + 1)) (inp (t + 1))).rstN = true :=
    h.running (t + 1) (Nat.le_succ t)
  have hdata : (m25pIn (core s inp (t + 1)) (inp (t + 1))).far.data =
      (inp t).wb.dat.extractLsb' 0 8 := by
    simp [m25pIn, farOut, XloaderWb.far, wbIn, h.held]
  rw [(h.quiescent (Nat.le_refl _)).spiIn_data, core_succ]
  simp [M25pFlash.step, M25pFlash.pHostSpiRegisters, hrst, hload', hdata]

theorem HostWrite.select (hs : Reachable s) (h : HostWrite s inp t) {u : ℕ} (hu : t < u)
    (hno : ∀ k, t < k → k < u → ¬ FarWrite (core s inp k) (inp k)) :
    (core s inp u).wb.farCsInt = (inp t).wb.dat.getLsbD 10 := by
  induction hu with
  | refl => exact (h.far.loads (h.running t (Nat.le_refl t))).2.2.2
  | @step u hu ih =>
    rw [core_succ, (no_load (tidy_run hs.tidy inp u) (h.running u (Nat.le_of_lt hu))
      (hno u hu (Nat.lt_succ_self u))).2]
    exact ih fun k hk hk' => hno k hk (Nat.lt_succ_of_lt hk')

/-- A write that finds the line free goes out. -/
theorem HostWrite.goes_out (hs : Reachable s) (h : HostWrite s inp t)
    (hmaster : MasterRuns (fun u => spiIn (core s inp u) (inp u))
      (fun u => spiOut (core s inp u) (inp u)) busy)
    (hno : ¬ Launches (core s inp t)) : OneTransfer s inp busy t := by
  obtain ⟨hfree, hquiet⟩ := hmaster.ready t h.ready
  have hfree1 := hmaster.idle t (h.running t (Nat.le_refl t)) hfree hquiet
  have hquiet1 : (spiIn (core s inp (t + 1)) (inp (t + 1))).start = false := by
    by_contra hstart
    exact hno ((h.start_between hs).mp (by simpa using hstart))
  have hfree2 := hmaster.idle (t + 1) (h.running _ (Nat.le_succ t)) hfree1 hquiet1
  have hbusy3 := hmaster.taken (t + 2) (h.running _ (by omega)) hfree2 h.starts_in_time
  refine ⟨⟨hfree2, h.starts_in_time⟩, h.byte, fun u hu hstart => ?_, fun u hu hsel => ?_, fun u hu hready => ?_⟩
  · rcases Nat.lt_or_ge u (t + 2) with hlt | hge
    · obtain rfl : u = t + 1 := by omega
      exact absurd (hquiet1.symm.trans hstart.2) Bool.false_ne_true
    obtain ⟨k, rfl⟩ := Nat.exists_eq_add_of_le hge
    have hhost := hstart.2
    rw [(h.quiescent hge).spiIn_start, show t + 2 + k = t + k + 2 by omega] at hhost
    have hfar := h.start_host hs (Nat.le_add_right t k) hhost
    rcases Nat.eq_zero_or_pos k with rfl | hpos
    · exact .inl rfl
    · exact .inr ⟨t + k, by omega, by omega, hfar⟩
  · rw [(h.quiescent hu).spiIn_cs]
    exact h.select hs (by omega) hsel
  · obtain ⟨hfreeu, hquietu⟩ := hmaster.ready u hready
    refine ⟨?_, hfreeu⟩
    by_contra hle
    obtain rfl | rfl : u = t + 2 ∨ u = t + 3 := by omega
    · exact absurd (hquietu.symm.trans h.starts_in_time) Bool.false_ne_true
    · exact absurd (hfreeu.symm.trans hbusy3) Bool.false_ne_true

end Run

/-! ## The host after the trigger -/

/-- A write access. -/
def writeBus (adr : BitVec 32) (dat : Word) : WbMasterOut := ⟨true, true, adr, 0xf#4, true, dat⟩

/-- The host writes the trigger sequence, and in cycle `n` FAR with XFER, CS and the byte 0xa5. -/
def triggerThenFar (n t : ℕ) : In :=
  { passiveIn true with
    bootEn := true
    wb :=
      if 1 ≤ t ∧ t < 17 then
        writeBus 4#32 ((BootTrigger.triggerSequence[(t - 1) / 2]?.getD 0#8).setWidth 32)
      else if t = n ∨ t = n + 1 then writeBus 8#32 0x5a5#32
      else default }

/-- A transfer is under way in the emulated flash. -/
def linkBusy (inp : ℕ → In) (t : ℕ) : Bool := decide ((core afterReset inp t).spi.link.busy ≠ 0)

theorem busy_step {content : BitVec 24 → Byte} {m : SpiFlash.State} {i : SpiIn} (hr : i.rstN = true) :
    (SpiFlash.step content m i).link.busy = if m.link.Starts i then 16 else m.link.busy - 1 := by
  rw [SpiFlash.step, hr]
  by_cases hs : m.link.Starts i <;> simp [hs]

theorem linkBusy_succ (inp : ℕ → In) {t : ℕ} (hr : (inp t).rstN = true) :
    (core afterReset inp (t + 1)).spi.link.busy =
      if SpiLink.Starts (core afterReset inp t).spi.link (spiIn (core afterReset inp t) (inp t)) then 16
      else (core afterReset inp t).spi.link.busy - 1 :=
  busy_step hr

theorem link_masterRuns (inp : ℕ → In) :
    MasterRuns (fun u => spiIn (core afterReset inp u) (inp u))
      (fun u => spiOut (core afterReset inp u) (inp u)) (linkBusy inp) where
  ready t h := by
    have h' : (decide ((core afterReset inp t).spi.link.busy = 0) &&
        !(spiIn (core afterReset inp t) (inp t)).start) = true := h
    simpa [linkBusy] using h'
  taken t hr hfree hstart := by
    have hb : (core afterReset inp t).spi.link.busy = 0 := by simpa [linkBusy] using hfree
    have hnext := linkBusy_succ inp hr
    rw [if_pos ⟨hb, hstart⟩] at hnext
    simp [linkBusy, hnext]
  idle t hr hfree hstart := by
    have hb : (core afterReset inp t).spi.link.busy = 0 := by simpa [linkBusy] using hfree
    have hnext := linkBusy_succ inp hr
    rw [if_neg fun h => Bool.false_ne_true (hstart.symm.trans h.2), hb] at hnext
    simp [linkBusy, hnext]

/-- The write comes in the cycle between the command and the address of the engine's read. -/
theorem host_byte_lost :
    ¬ ∀ (P : Parts) (s : Regs P) (inp : ℕ → In) (busy : ℕ → Bool) (t : ℕ), Reachable s →
      MasterRuns (fun u => spiIn (core s inp u) (inp u)) (fun u => spiOut (core s inp u) (inp u)) busy →
      HostWrite s inp t → OneTransfer s inp busy t := by
  intro hall
  have hwrite : HostWrite afterReset (triggerThenFar 38) 38 :=
    ⟨⟨by decide +kernel, by decide, by decide, by decide⟩, by decide, by decide +kernel,
      by decide +kernel, by decide, fun _ _ => rfl⟩
  have hone := hall _ afterReset (triggerThenFar 38) _ 38 afterReset_reachable (link_masterRuns _) hwrite
  exact absurd hone.starts.1 (by decide +kernel)

/-- A write of FAR with XFER that finds READY at 1 starts its transfer exactly if the controller
does not launch a byte for the engine in the same cycle. -/
theorem one_transfer_iff (P : Parts) (s : Regs P) (inp : ℕ → In) (busy : ℕ → Bool) (t : ℕ)
    (hs : Reachable s)
    (hmaster : MasterRuns (fun u => spiIn (core s inp u) (inp u))
      (fun u => spiOut (core s inp u) (inp u)) busy)
    (h : HostWrite s inp t) : OneTransfer s inp busy t ↔ ¬ Launches (core s inp t) := by
  refine ⟨fun hone hlaunch => ?_, h.goes_out hs hmaster⟩
  obtain ⟨hfree, hquiet⟩ := hmaster.ready t h.ready
  have hfree1 := hmaster.idle t (h.running t (Nat.le_refl t)) hfree hquiet
  rcases hone.only (t + 1) (Nat.lt_succ_self t) ⟨hfree1, (h.start_between hs).mpr hlaunch⟩ with
    heq | ⟨k, hk, heq, -⟩
  · omega
  · omega

/-- A write long after the trigger. -/
theorem one_transfer_iff_late :
    OneTransfer afterReset (triggerThenFar 200) (linkBusy (triggerThenFar 200)) 200 ↔
      ¬ Launches (core afterReset (triggerThenFar 200) 200) :=
  one_transfer_iff _ afterReset (triggerThenFar 200) (linkBusy (triggerThenFar 200)) 200
    afterReset_reachable (link_masterRuns _)
    ⟨⟨by decide +kernel, by decide, by decide, by decide⟩, by decide, by decide +kernel,
      by decide +kernel, by decide, fun _ _ => rfl⟩

end Svec.Boot.HostFlash
