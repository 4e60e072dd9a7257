/-
  Boot/FlashStream.lean --- booting from the flash delivers the stored bitstream.

  The flash boot engine asks the flash controller for one byte after another and
  hands each to the loader.  All three pass requests and answers with a cycle of
  delay; the invariant says for each state of the engine what the controller and
  the flash behind it are about to do, and that the loader, which latches for at
  most two cycles, is done before the engine has the next byte.
-/
import Svec.Loader.Moves
import Svec.Boot.FlashReader
import Svec.Boot.Isolation

set_option autoImplicit false

namespace Svec.Boot.FlashStream

open Svec.Data Svec.Sync Svec.Hdl Svec.Hdl.Bootloader Svec.Boot.FlashReader
open Svec.Hdl.FlashBoot (cSdbRootOffset cSdbBitstreamOffset cSdbSignature)

/-! ## The flash boot engine -/

/-- Byte `n` of the bitstream file. -/
def bitstreamByte (content : BitVec 24 → Byte) (n : ℕ) : Byte :=
  content (cSdbBitstreamOffset + BitVec.ofNat 24 n)

/-- The first `k` bytes at the SDB root are those of the signature. -/
def Signed (content : BitVec 24 → Byte) (k : ℕ) : Prop :=
  ∀ j, j < k → content (cSdbRootOffset + BitVec.ofNat 24 j) = cSdbSignature j

/-- `CHECK_SIG0` to `CHECK_SIG3`. -/
def checkSig : ℕ → FlashBoot.State
  | 0 => .checkSig0
  | 1 => .checkSig1
  | 2 => .checkSig2
  | _ => .checkSig3

/-- What each state of the engine knows of the controller and the flash, with the number of
bytes handed to the loader. -/
inductive Stage (content : BitVec 24 → Byte) (f : FlashBoot.Regs) (m : M25pFlash.Regs) (l : SpiLink) :
    ℕ → Prop where
  | resting (hs : f.state = .startup ∨ f.state = .selectSdb) (hset : f.flashSetAddr = false)
      (hread : f.flashRead = false) (hidle : Idle m) : Stage content f m l 0
  | selectingSdb (hs : f.state = .waitSelectSdb) (haddr : f.flashAddr = cSdbRootOffset)
      (hpos : Positioning m l cSdbRootOffset f.flashSetAddr f.flashRead) : Stage content f m l 0
  | checking (k : ℕ) (hk : k < 4) (hs : f.state = checkSig k)
      (hfetch : Fetching content m l (cSdbRootOffset + BitVec.ofNat 24 k) f.flashSetAddr f.flashRead)
      (hsig : Signed content k) : Stage content f m l 0
  | signed (hs : f.state = .selectBitstream) (hset : f.flashSetAddr = false)
      (hread : f.flashRead = false) (hidle : Idle m) (hsig : Signed content 4) : Stage content f m l 0
  | selectingBitstream (hs : f.state = .waitSelectBitstream)
      (haddr : f.flashAddr = cSdbBitstreamOffset)
      (hpos : Positioning m l cSdbBitstreamOffset f.flashSetAddr f.flashRead) : Stage content f m l 0
  | fetching (n : ℕ) (hn : n ≤ 0x408000) (hs : f.state = .fetchBsByte)
      (hfetch : Fetching content m l (cSdbBitstreamOffset + BitVec.ofNat 24 n) f.flashSetAddr f.flashRead) :
      Stage content f m l n
  | loading (n : ℕ) (hn : n ≤ 0x408000) (hs : f.state = .loadBsByte) (hset : f.flashSetAddr = false)
      (hread : f.flashRead = false) (hdata : f.xldrData = bitstreamByte content n)
      (hat : At m l (cSdbBitstreamOffset + BitVec.ofNat 24 (n + 1))) : Stage content f m l n
  | ended (n : ℕ) (hn : n ≤ 0x408001) (hs : f.state = .noBitstream ∨ f.state = .bootDone) :
      Stage content f m l n

/-- A cycle of the engine, the controller and the link. -/
structure EngineCycle (content : BitVec 24 → Byte) (f : FlashBoot.Regs) (fi : FlashBoot.In)
    (m : M25pFlash.Regs) (mi : M25pFlash.In) (l l' : SpiLink) : Prop where
  cycle : Cycle content m mi l l'
  rstN : fi.rstN = true
  enable : fi.enable = true
  ready : fi.flashReady = M25pFlash.readyO m f.flashSetAddr f.flashRead
  data : fi.flashData = m.dataO
  setAddr : mi.setAddr = f.flashSetAddr
  read : mi.read = f.flashRead
  addr : mi.addr = f.flashAddr

/-- The engine hands a byte to the loader. -/
def hands (f : FlashBoot.Regs) (fi : FlashBoot.In) : Bool := f.state = .loadBsByte && fi.xldrRd

section Engine

variable {content : BitVec 24 → Byte} {f : FlashBoot.Regs} {fi : FlashBoot.In}
  {m : M25pFlash.Regs} {mi : M25pFlash.In} {l l' : SpiLink}

theorem EngineCycle.positioning (h : EngineCycle content f fi m mi l l') {a : BitVec 24}
    (haddr : f.flashAddr = a) (hpos : Positioning m l a f.flashSetAddr f.flashRead) :
    (fi.flashReady = false → Positioning (M25pFlash.step m mi) l' a false false) ∧
      (fi.flashReady = true → f.flashSetAddr = false ∧ At (M25pFlash.step m mi) l' a) := by
  rw [← h.setAddr, ← h.read] at hpos
  rw [h.ready, ← h.setAddr, ← h.read]
  exact positioning_step h.cycle (h.addr.trans haddr) hpos

theorem EngineCycle.fetching (h : EngineCycle content f fi m mi l l') {a : BitVec 24}
    (hfetch : Fetching content m l a f.flashSetAddr f.flashRead) :
    (fi.flashReady = false → Fetching content (M25pFlash.step m mi) l' a false false) ∧
      (fi.flashReady = true → f.flashSetAddr = false ∧ fi.flashData = content a ∧
        At (M25pFlash.step m mi) l' (a + 1#24)) := by
  rw [← h.setAddr, ← h.read] at hfetch
  rw [h.ready, h.data, ← h.setAddr, ← h.read]
  exact fetching_step h.cycle hfetch

theorem offset_succ (a : BitVec 24) (n : ℕ) :
    a + BitVec.ofNat 24 n + 1#24 = a + BitVec.ofNat 24 (n + 1) := by
  rw [BitVec.add_assoc, BitVec.ofNat_add]

/-- The engine in a state that checks byte `k` of the signature. -/
theorem step_checkSig (h : EngineCycle content f fi m mi l l') {k : ℕ} (hk : k < 4)
    (hs : f.state = checkSig k) : ∃ st read,
      FlashBoot.pMain f fi = FlashBoot.fCheckSignature f fi k st read ∧
        ((k < 3 ∧ st = checkSig (k + 1) ∧ read = true) ∨
          (k = 3 ∧ st = .selectBitstream ∧ read = false)) := by
  unfold FlashBoot.pMain
  rw [h.rstN, h.enable, hs]
  match k, hk with
  | 0, _ => exact ⟨_, _, rfl, Or.inl ⟨by decide, rfl, rfl⟩⟩
  | 1, _ => exact ⟨_, _, rfl, Or.inl ⟨by decide, rfl, rfl⟩⟩
  | 2, _ => exact ⟨_, _, rfl, Or.inl ⟨by decide, rfl, rfl⟩⟩
  | 3, _ => exact ⟨_, _, rfl, Or.inr ⟨rfl, rfl, rfl⟩⟩

theorem checking_step (h : EngineCycle content f fi m mi l l') {k : ℕ} (hk : k < 4)
    (hs : f.state = checkSig k)
    (hfetch : Fetching content m l (cSdbRootOffset + BitVec.ofNat 24 k) f.flashSetAddr f.flashRead)
    (hsig : Signed content k) :
    Stage content (FlashBoot.step f fi) (M25pFlash.step m mi) l' 0 := by
  obtain ⟨hwait, hdone⟩ := h.fetching hfetch
  obtain ⟨st, read, hmain, hnext⟩ := step_checkSig h hk hs
  have hstep : FlashBoot.step f fi = { FlashBoot.fCheckSignature f fi k st read with
      noBitstreamIntD0 := fi.rstN && f.noBitstreamInt
      noBitstreamP1 := fi.rstN && (f.noBitstreamInt && !f.noBitstreamIntD0) } := by
    rw [FlashBoot.step, hmain]
  rw [hstep]
  unfold FlashBoot.fCheckSignature
  cases hready : fi.flashReady with
  | false =>
    refine .checking k hk hs ?_ hsig
    have hset : f.flashSetAddr = false := hfetch.1
    simpa [hset] using hwait hready
  | true =>
    obtain ⟨hset, hdata, hat⟩ := hdone hready
    simp only [if_true]
    by_cases hbyte : fi.flashData = cSdbSignature k
    · have hsig' : Signed content (k + 1) := by
        intro j hj
        rcases Nat.lt_succ_iff_lt_or_eq.mp hj with hj | rfl
        · exact hsig j hj
        · exact hdata.symm.trans hbyte
      rw [offset_succ] at hat
      simp only [hbyte, if_true]
      rcases hnext with ⟨hk3, rfl, rfl⟩ | ⟨rfl, rfl, rfl⟩
      · exact .checking (k + 1) (by omega) rfl ⟨hset, Or.inl ⟨rfl, hat⟩⟩ hsig'
      · exact .signed rfl hset rfl hat.idle hsig'
    · simp only [hbyte, if_false]
      exact .ended 0 (by omega) (Or.inl rfl)

/-- The engine in `LOAD_BS_BYTE`: the byte waits, or it is handed over. -/
theorem loading_step (h : EngineCycle content f fi m mi l l') {n : ℕ} (hn : n ≤ 0x408000)
    (hs : f.state = .loadBsByte) (hset : f.flashSetAddr = false) (hread : f.flashRead = false)
    (hdata : f.xldrData = bitstreamByte content n) (hcount : f.byteCount = BitVec.ofNat 24 n)
    (hat : At m l (cSdbBitstreamOffset + BitVec.ofNat 24 (n + 1))) :
    Stage content (FlashBoot.step f fi) (M25pFlash.step m mi) l' (n + (hands f fi).toNat) := by
  have hat' := at_step h.cycle hat (h.setAddr.trans hset) (h.read.trans hread)
  unfold FlashBoot.step FlashBoot.pMain hands
  rw [h.rstN, h.enable, hs]
  cases hrd : fi.xldrRd with
  | false => exact .loading n hn rfl hset rfl hdata hat'
  | true =>
    cases hdone : fi.xldrDone with
    | true => exact .ended (n + 1) (by omega) (Or.inr rfl)
    | false =>
      by_cases hlast : f.byteCount = FlashBoot.cBitstreamSize
      · simp only [hlast]
        exact .ended (n + 1) (by omega) (Or.inl rfl)
      · have hne : n ≠ 0x408000 := by
          rintro rfl
          exact hlast hcount
        simp only [hlast]
        exact .fetching (n + 1) (by omega) rfl ⟨hset, Or.inl ⟨rfl, hat'⟩⟩

/-- The engine stops after `c_BITSTREAM_SIZE + 1` bytes. -/
theorem Stage.le {n : ℕ} (h : Stage content f m l n) : n ≤ 0x408001 := by
  cases h <;> omega

theorem checkSig_ne (k : ℕ) : checkSig k ≠ .loadBsByte := by
  unfold checkSig
  split <;> decide

/-- What the other parts of the core rely on, state by state. -/
theorem Stage.of_state {n : ℕ} (h : Stage content f m l n) :
    match f.state with
    | .startup => n = 0
    | .selectBitstream => Signed content 4
    | .fetchBsByte => f.flashRead = true → f.flashSetAddr = false ∧ ∃ a, At m l a
    | .loadBsByte => f.xldrData = bitstreamByte content n
    | _ => True := by
  cases h with
  | resting hs => rcases hs with hs | hs <;> simp [hs]
  | selectingSdb hs => simp [hs]
  | checking k hk hs =>
    rw [hs]
    match k, hk with
    | 0, _ => trivial
    | 1, _ => trivial
    | 2, _ => trivial
    | 3, _ => trivial
  | signed hs _ _ _ hsig =>
    rw [hs]
    exact hsig
  | selectingBitstream hs => simp [hs]
  | fetching n _ hs hfetch =>
    rw [hs]
    intro hread
    obtain ⟨hset, ⟨-, hat⟩ | ⟨hread', -⟩⟩ := hfetch
    · exact ⟨hset, _, hat⟩
    · exact absurd (hread.symm.trans hread') (by decide)
  | loading n _ hs _ _ hdata =>
    rw [hs]
    exact hdata
  | ended n _ hs => rcases hs with hs | hs <;> simp [hs]

theorem not_hands {st : FlashBoot.State} (hs : f.state = st) (hne : st ≠ .loadBsByte) :
    hands f fi = false := by
  simp [hands, hs, hne]

/-- One step of the engine. -/
theorem stage_step (h : EngineCycle content f fi m mi l l') {n : ℕ} (hstage : Stage content f m l n)
    (hcount : f.state = .loadBsByte → f.byteCount = BitVec.ofNat 24 n) :
    Stage content (FlashBoot.step f fi) (M25pFlash.step m mi) l' (n + (hands f fi).toNat) := by
  cases hstage with
  | resting hs hset hread hidle =>
    have hidle' := (idle_step h.cycle hidle (h.setAddr.trans hset) (h.read.trans hread)).1
    rcases hs with hs | hs <;> rw [not_hands hs (by decide)] <;>
      unfold FlashBoot.step FlashBoot.pMain <;> rw [h.rstN, h.enable, hs]
    · exact .resting (Or.inr rfl) hset hread hidle'
    · exact .selectingSdb rfl rfl ⟨hread, Or.inl ⟨rfl, hidle'⟩⟩
  | selectingSdb hs haddr hpos =>
    obtain ⟨hwait, hdone⟩ := h.positioning haddr hpos
    have hread : f.flashRead = false := hpos.1
    rw [not_hands hs (by decide)]
    unfold FlashBoot.step FlashBoot.pMain
    rw [h.rstN, h.enable, hs]
    cases hready : fi.flashReady with
    | false =>
      refine .selectingSdb rfl haddr ?_
      show Positioning _ _ _ false f.flashRead
      rw [hread]
      exact hwait hready
    | true =>
      obtain ⟨hset, hat⟩ := hdone hready
      exact .checking 0 (by decide) rfl ⟨hset, Or.inl ⟨rfl, by simpa using hat⟩⟩
        fun j hj => absurd hj (Nat.not_lt_zero j)
  | checking k hk hs hfetch hsig =>
    rw [not_hands hs (checkSig_ne k)]
    exact checking_step h hk hs hfetch hsig
  | signed hs hset hread hidle hsig =>
    have hidle' := (idle_step h.cycle hidle (h.setAddr.trans hset) (h.read.trans hread)).1
    rw [not_hands hs (by decide)]
    unfold FlashBoot.step FlashBoot.pMain
    rw [h.rstN, h.enable, hs]
    exact .selectingBitstream rfl rfl ⟨hread, Or.inl ⟨rfl, hidle'⟩⟩
  | selectingBitstream hs haddr hpos =>
    obtain ⟨hwait, hdone⟩ := h.positioning haddr hpos
    rw [not_hands hs (by decide)]
    unfold FlashBoot.step FlashBoot.pMain
    rw [h.rstN, h.enable, hs]
    cases hready : fi.flashReady with
    | false => exact .selectingBitstream rfl haddr (hwait hready)
    | true =>
      obtain ⟨-, hat⟩ := hdone hready
      exact .fetching 0 (by omega) rfl ⟨rfl, Or.inl ⟨rfl, by simpa using hat⟩⟩
  | fetching n hn hs hfetch =>
    obtain ⟨hwait, hdone⟩ := h.fetching hfetch
    have hset : f.flashSetAddr = false := hfetch.1
    rw [not_hands hs (by decide)]
    unfold FlashBoot.step FlashBoot.pMain
    rw [h.rstN, h.enable, hs]
    cases hready : fi.flashReady with
    | false =>
      refine .fetching n hn rfl ?_
      show Fetching _ _ _ _ f.flashSetAddr false
      rw [hset]
      exact hwait hready
    | true =>
      obtain ⟨-, hdata, hat⟩ := hdone hready
      rw [offset_succ] at hat
      rw [h.ready] at hready
      exact .loading n hn rfl hset (readyO_eq_true hready).2.2 hdata hat
  | loading n hn hs hset hread hdata hat =>
    exact loading_step h hn hs hset hread hdata (hcount hs) hat
  | ended n hn hs =>
    rcases hs with hs | hs <;> rw [not_hands hs (by decide)] <;>
      unfold FlashBoot.step FlashBoot.pMain <;> rw [h.rstN, h.enable, hs]
    · exact .ended n hn (Or.inl rfl)
    · exact .ended n hn (Or.inr rfl)

/-- The byte counter counts the bytes handed over. -/
theorem count_step (hrst : fi.rstN = true) (hen : fi.enable = true) {n : ℕ}
    (hstart : f.state = .startup → n = 0)
    (hcount : f.state ≠ .startup → f.byteCount = BitVec.ofNat 24 n) :
    (FlashBoot.step f fi).byteCount = BitVec.ofNat 24 (n + (hands f fi).toNat) := by
  by_cases hload : f.state = .loadBsByte
  · have hb := hcount (by rw [hload]; decide)
    cases hrd : fi.xldrRd with
    | false => simp [FlashBoot.step, FlashBoot.pMain, hands, hrst, hen, hload, hrd, hb]
    | true => simp [FlashBoot.step, FlashBoot.pMain, hands, hrst, hen, hload, hrd, hb, BitVec.ofNat_add]
  · rw [not_hands rfl hload]
    show (FlashBoot.pMain f fi).byteCount = _
    unfold FlashBoot.pMain
    rw [hrst, hen]
    show _ = BitVec.ofNat 24 n
    cases hs : f.state
    case startup =>
      rw [hstart hs]
      rfl
    case loadBsByte => exact absurd hs hload
    all_goals rw [← hcount (by rw [hs]; decide)]
    all_goals simp only [Bool.not_true, Bool.or_false, Bool.false_eq_true, if_false, FlashBoot.fCheckSignature]
    all_goals split <;> rfl

/-- A byte is offered in `LOAD_BS_BYTE` only. -/
theorem empty_step (hrst : fi.rstN = true) (hen : fi.enable = true)
    (hempty : f.xldrEmpty = decide (f.state ≠ .loadBsByte)) :
    (FlashBoot.step f fi).xldrEmpty = decide ((FlashBoot.step f fi).state ≠ .loadBsByte) := by
  show (FlashBoot.pMain f fi).xldrEmpty = decide ((FlashBoot.pMain f fi).state ≠ .loadBsByte)
  unfold FlashBoot.pMain
  rw [hrst, hen]
  cases hs : f.state <;> rw [hs] at hempty <;>
    simp only [Bool.not_true, Bool.or_false, Bool.false_eq_true, if_false, FlashBoot.fCheckSignature] <;>
    (repeat' split) <;> simp_all

/-- The loader is started after the whole signature. -/
theorem start_step (hrst : fi.rstN = true) (hen : fi.enable = true)
    (h : (FlashBoot.step f fi).xldrStart = true) :
    f.state = .selectBitstream ∨ f.xldrStart = true := by
  have h' : (FlashBoot.pMain f fi).xldrStart = true := h
  unfold FlashBoot.pMain at h'
  rw [hrst, hen] at h'
  cases hs : f.state <;> rw [hs] at h' <;>
    simp only [Bool.not_true, Bool.or_false, Bool.false_eq_true, if_false, FlashBoot.fCheckSignature] at h'
  case selectBitstream => exact Or.inl rfl
  all_goals
    right
    revert h'
    (repeat' split) <;> simp

/-! ## While the loader latches -/

/-- What the engine and the controller do while the loader latches a byte: the next read has
just been requested, or has just been started, or there is none. -/
def Latching (f : FlashBoot.Regs) (m : M25pFlash.Regs) (tick : Bool) : Prop :=
  f.state = .noBitstream ∨ f.state = .bootDone ∨
    (f.state = .fetchBsByte ∧
      (f.flashRead = true ∨ (m.state = .data ∧ m.spiStart = true ∧ tick = true)))

/-- Handing a byte over. -/
theorem latching_of_hands (hrst : fi.rstN = true) (hen : fi.enable = true) (hhand : hands f fi = true)
    (m' : M25pFlash.Regs) (tick : Bool) :
    Latching (FlashBoot.step f fi) m' tick ∧ (FlashBoot.step f fi).xldrData = f.xldrData := by
  obtain ⟨hs, hrd⟩ : f.state = .loadBsByte ∧ fi.xldrRd = true := by simpa [hands] using hhand
  unfold Latching
  cases hdone : fi.xldrDone with
  | true => simp [FlashBoot.step, FlashBoot.pMain, hrst, hen, hs, hrd, hdone]
  | false =>
    by_cases hlast : f.byteCount = FlashBoot.cBitstreamSize <;>
      simp [FlashBoot.step, FlashBoot.pMain, hrst, hen, hs, hrd, hdone, hlast]

/-- A byte that is not latched yet stays for one more cycle, and then comes the tick. -/
theorem latching_step (h : EngineCycle content f fi m mi l l') {n : ℕ}
    (hstage : Stage content f m l n) (hlatch : Latching f m false) :
    Latching (FlashBoot.step f fi) (M25pFlash.step m mi) true ∧
      (FlashBoot.step f fi).xldrData = f.xldrData := by
  rcases hlatch with hs | hs | ⟨hs, hread | ⟨-, -, htick⟩⟩
  · simp [Latching, FlashBoot.step, FlashBoot.pMain, h.rstN, h.enable, hs]
  · simp [Latching, FlashBoot.step, FlashBoot.pMain, h.rstN, h.enable, hs]
  · have hready : fi.flashReady = false := by simp [h.ready, M25pFlash.readyO, hread]
    have hfetch := hstage.of_state
    rw [hs] at hfetch
    obtain ⟨hset, a, hat⟩ := hfetch hread
    obtain ⟨hreading, hstart⟩ := reading_of_read h.cycle hat (h.setAddr.trans hset) (h.read.trans hread)
    refine ⟨Or.inr (Or.inr ⟨?_, Or.inr ⟨hreading.state, hstart, rfl⟩⟩), ?_⟩ <;>
      simp [FlashBoot.step, FlashBoot.pMain, h.rstN, h.enable, hs, hready]
  · exact absurd htick (by decide)

end Engine

/-! ## The core without the host -/

section Core

variable {P : Parts}

/-- The host has left no trace: the flash engine owns the loader, and the register block, the
trigger detector and the host's side of the flash controller are as the reset left them. -/
structure Quiet (r : Regs P) : Prop where
  source : r.bootSource = .flash
  front : Isolation.front r.wb = Isolation.Front.reset
  trig : r.trig = BootTrigger.reset
  startHost : r.m25p.spiStartHost = false
  wdataHost : r.m25p.spiWdataHost = 0#8

variable {r : Regs P} {i : In}

theorem quiet_reset (hr : i.rstN = false) : Quiet (step r i) where
  source := by simp [pSelectBootMode, hr]
  front := by
    rw [step_wb, Isolation.front_step, hr]
    rfl
  trig := by simp [BootTrigger.pDetectBootTrigger, trigIn, hr, BootTrigger.reset]
  startHost := by simp [M25pFlash.step, M25pFlash.pHostSpiRegisters, m25pIn, hr]
  wdataHost := by simp [M25pFlash.step, M25pFlash.pHostSpiRegisters, m25pIn, hr]

theorem Quiet.noLoad (h : Quiet r) : (farOut r i).dataLoad = false :=
  congrArg Isolation.Front.farDataLoad h.front

theorem quiet_step (h : Quiet r) (hr : i.rstN = true) (hbus : (i.wb.cyc && i.wb.stb) = false) :
    Quiet (step r i) where
  source := by simp [pSelectBootMode, hr, h.source, h.trig, BootTrigger.reset]
  front := by
    have hbus' : ((wbIn P i).cyc && (wbIn P i).stb) = false := by simpa [wbIn] using hbus
    rw [step_wb, Isolation.front_step, hr, h.front, Isolation.Front.step_silent rfl hbus']
    rfl
  trig := by
    have hwr : r.wb.btrigrWr = false := congrArg Isolation.Front.btrigrWr h.front
    simp [BootTrigger.pDetectBootTrigger, BootTrigger.fBootseqStep, trigIn, hr, h.trig, hwr,
      BootTrigger.reset]
  startHost := by
    simp [M25pFlash.step, M25pFlash.pHostSpiRegisters, m25pIn, hr, h.noLoad]
  wdataHost := by
    simp [M25pFlash.step, M25pFlash.pHostSpiRegisters, m25pIn, hr, h.noLoad, h.wdataHost]

/-- Without the host `spi_master` gets what the controller sends. -/
theorem Quiet.spiIn_eq (h : Quiet r) (hr : i.rstN = true) : spiIn r i =
    ⟨true, r.m25p.spiCs, r.m25p.spiStart, r.m25p.spiWdata, i.spiMiso⟩ := by
  have hcs : (farOut r i).cs = false := congrArg Isolation.Front.farCsInt h.front
  simp [Bootloader.spiIn, M25pFlash.spiIn, hr, hcs, h.startHost, h.wdataHost]

/-- Without the host the core's cycle is one of the engine, the controller and the link. -/
theorem Quiet.engineCycle {content : BitVec 24 → Byte} {l l' : SpiLink} (h : Quiet r)
    (hr : i.rstN = true)
    (hready : (spiOut r i).ready = (decide (l.busy = 0) && !(spiIn r i).start))
    (hdata : l.busy = 0 → (spiOut r i).data = l.received)
    (hlink : LinkStep content (spiIn r i) l l') :
    EngineCycle content r.flash (flashIn r i) r.m25p (m25pIn r i) l l' where
  cycle :=
    { rstN := hr
      noLoad := h.noLoad
      ready := by
        rw [h.spiIn_eq hr] at hready
        exact hready
      data := hdata
      link := ⟨i.spiMiso, by
        rw [h.spiIn_eq hr] at hlink
        exact hlink⟩ }
  rstN := hr
  enable := by simp [flashIn, h.source]
  ready := rfl
  data := rfl
  setAddr := rfl
  read := rfl
  addr := rfl

/-- The bytes that change hands in a cycle: offered by the engine, taken by the loader. -/
def handed (r : Regs P) (i : In) : List Byte :=
  if !r.flash.xldrEmpty && (toFlashLdr r i).rd then [r.flash.xldrData] else []

/-- The divider of the loader, with the flash engine's `clk_div`: a tick every second cycle. -/
def Divider (f : FlashBoot.Regs) (x : XilinxLoader.Regs) : Prop :=
  (f.state = .startup ∧ x.clkDiv = 0#7) ∨ (x.tick = true ∧ x.clkDiv = 0#7) ∨
    (x.tick = false ∧ x.clkDiv = 1#7)

theorem divider_step {f f' : FlashBoot.Regs} {x : XilinxLoader.Regs} {xi : XilinxLoader.In}
    (hr : xi.rstN = true) (hdiv : xi.csrClkDiv = 1#7) (h : Divider f x) :
    Divider f' (XilinxLoader.step x xi) := by
  unfold Divider
  rw [XilinxLoader.step_tick, XilinxLoader.step_clkDiv, XilinxLoader.pDivideClock, hr, hdiv]
  rcases h with ⟨-, h⟩ | ⟨-, h⟩ | ⟨-, h⟩ <;> simp [h]

/-! ## The invariant -/

/-- The core boots from the flash and has handed `n` bytes to the loader. -/
structure Booting (content : BitVec 24 → Byte) (r : Regs P) (l : SpiLink) (n : ℕ) : Prop where
  quiet : Quiet r
  stage : Stage content r.flash r.m25p l n
  count : r.flash.state ≠ .startup → r.flash.byteCount = BitVec.ofNat 24 n
  empty : r.flash.xldrEmpty = decide (r.flash.state ≠ .loadBsByte)
  start : r.flash.xldrStart = true → Signed content 4
  divider : Divider r.flash r.xldr
  latch : r.xldr.state = .readFifo2 → Latching r.flash r.m25p r.xldr.tick ∧
    ∃ k, n = k + 1 ∧ r.flash.xldrData = bitstreamByte content k

theorem booting_reset (content : BitVec 24 → Byte) (l : SpiLink) (hr : i.rstN = false) :
    Booting content (step r i) l 0 where
  quiet := quiet_reset hr
  stage := by
    refine .resting (Or.inl ?_) ?_ ?_ ⟨?_, ?_⟩ <;>
      simp [FlashBoot.step, FlashBoot.pMain, flashIn, M25pFlash.step, M25pFlash.pMainFsm, m25pIn, hr]
  count h := absurd (by simp [FlashBoot.step, FlashBoot.pMain, flashIn, hr]) h
  empty := by simp [FlashBoot.step, FlashBoot.pMain, flashIn, hr]
  start h := absurd h (by simp [FlashBoot.step, FlashBoot.pMain, flashIn, hr])
  divider := by
    refine Or.inl ⟨?_, ?_⟩
    · simp [FlashBoot.step, FlashBoot.pMain, flashIn, hr]
    · simp [XilinxLoader.pDivideClock, xldrIn, hr]
  latch h := absurd h (by simp [XilinxLoader.pMainFsm, xldrIn, hr])

section Step

variable {content : BitVec 24 → Byte} {l l' : SpiLink} {n : ℕ}

/-- The loader takes what the engine offers when it is in `IDLE` or in `READ_FIFO`. -/
theorem Booting.hands_eq (h : Booting content r l n) :
    (!r.flash.xldrEmpty && (toFlashLdr r i).rd) = hands r.flash (flashIn r i) := by
  unfold hands
  rw [h.empty]
  by_cases hs : r.flash.state = .loadBsByte <;> simp [hs, flashIn]

/-- What changes hands is the next byte of the bitstream. -/
theorem Booting.handed_eq (h : Booting content r l n) : handed r i =
    if hands r.flash (flashIn r i) then [bitstreamByte content n] else [] := by
  unfold handed
  rw [h.hands_eq]
  cases hhand : hands r.flash (flashIn r i) with
  | false => rfl
  | true =>
    have hs : r.flash.state = .loadBsByte := by
      have : r.flash.state = .loadBsByte ∧ (flashIn r i).xldrRd = true := by
        simpa [hands] using hhand
      exact this.1
    have hdata := h.stage.of_state
    rw [hs] at hdata
    rw [hdata]

/-- The loader is done with a byte in time. -/
theorem Booting.latch_step (h : Booting content r l n)
    (hcyc : EngineCycle content r.flash (flashIn r i) r.m25p (m25pIn r i) l l')
    (hs' : (step r i).xldr.state = .readFifo2) :
    Latching (step r i).flash (step r i).m25p (step r i).xldr.tick ∧
      ∃ k, n + (hands r.flash (flashIn r i)).toNat = k + 1 ∧
        (step r i).flash.xldrData = bitstreamByte content k := by
  have hempty : (xldrIn r i).csrEmpty = r.flash.xldrEmpty := by
    simp [xldrIn, toXilinxBoot, fromFlashLdr, h.quiet.source]
  have hdiv : (xldrIn r i).csrClkDiv = 1#7 := by
    simp [xldrIn, toXilinxBoot, fromFlashLdr, h.quiet.source, FlashBoot.xldrClkDiv]
  obtain ⟨hrun, ⟨hs, he⟩ | ⟨hs, ht⟩⟩ := Loader.readFifo2_entry hs'
  · -- The loader has just taken a byte.
    rw [hempty] at he
    have hhand : hands r.flash (flashIn r i) = true := by
      rw [← h.hands_eq]
      simp [toFlashLdr, fromXilinxBoot, toXilinxBoot, fromFlashLdr, h.quiet.source,
        XilinxLoader.csrRd, he, hs]
    have hload : r.flash.state = .loadBsByte := by
      rw [h.empty] at he
      simpa using he
    have hdata := h.stage.of_state
    rw [hload] at hdata
    obtain ⟨hlatch, hkeep⟩ := latching_of_hands hcyc.rstN hcyc.enable hhand (step r i).m25p
      (step r i).xldr.tick
    exact ⟨hlatch, n, by rw [hhand]; rfl, hkeep.trans hdata⟩
  · -- The loader has waited for the tick, which comes now.
    obtain ⟨hlatch, k, rfl, hdata⟩ := h.latch hs
    have htick : (step r i).xldr.tick = true := by
      rw [step_xldr, XilinxLoader.step_tick, XilinxLoader.pDivideClock, hrun.1, hdiv]
      rcases h.divider with ⟨hst, -⟩ | ⟨ht', -⟩ | ⟨-, hc⟩
      · rcases hlatch with hl | hl | ⟨hl, -⟩ <;> exact absurd (hst.symm.trans hl) (by decide)
      · exact absurd (ht.symm.trans ht') (by decide)
      · simp [hc]
    have hhand : hands r.flash (flashIn r i) = false := by
      rcases hlatch with hl | hl | ⟨hl, -⟩ <;> exact not_hands hl (by decide)
    rw [ht] at hlatch
    obtain ⟨hlatch', hkeep⟩ := latching_step hcyc h.stage hlatch
    rw [htick]
    exact ⟨hlatch', k, by rw [hhand]; rfl, hkeep.trans hdata⟩

theorem booting_step (h : Booting content r l n) (hr : i.rstN = true)
    (hbus : (i.wb.cyc && i.wb.stb) = false)
    (hcyc : EngineCycle content r.flash (flashIn r i) r.m25p (m25pIn r i) l l') :
    Booting content (step r i) l' (n + (hands r.flash (flashIn r i)).toNat) where
  quiet := quiet_step h.quiet hr hbus
  stage := stage_step hcyc h.stage fun hs => h.count (by rw [hs]; decide)
  count _ := count_step hcyc.rstN hcyc.enable
    (fun hs => by
      have hn := h.stage.of_state
      rw [hs] at hn
      exact hn) h.count
  empty := empty_step hcyc.rstN hcyc.enable h.empty
  start hs := by
    rcases start_step hcyc.rstN hcyc.enable hs with hsel | hon
    · have hsig := h.stage.of_state
      rw [hsel] at hsig
      exact hsig
    · exact h.start hon
  divider := divider_step hr
    (by simp [xldrIn, toXilinxBoot, fromFlashLdr, h.quiet.source, FlashBoot.xldrClkDiv]) h.divider
  latch hs := h.latch_step hcyc hs

end Step

/-! ## A whole boot -/

/-- A run from the reset in cycle 0 without an access of the host, with a flash of the given
content. -/
structure FlashRun (content : BitVec 24 → Byte) (s : Regs P) (inp : ℕ → In) (l : ℕ → SpiLink) :
    Prop where
  reset : (inp 0).rstN = false
  running : ∀ t, 0 < t → (inp t).rstN = true
  silent : ∀ t, 0 < t → ((inp t).wb.cyc && (inp t).wb.stb) = false
  flash : FlashAnswers content (fun t => spiIn (core s inp t) (inp t))
    (fun t => spiOut (core s inp t) (inp t)) l

/-- The bytes handed to the loader in the first `n` cycles after the reset. -/
def delivered (s : Regs P) (inp : ℕ → In) : ℕ → List Byte :=
  collect fun t => handed (core s inp (t + 1)) (inp (t + 1))

variable {content : BitVec 24 → Byte} {s : Regs P} {inp : ℕ → In} {l : ℕ → SpiLink}

theorem booting_run (h : FlashRun content s inp l) (t : ℕ) :
    ∃ n, Booting content (core s inp (t + 1)) (l (t + 1)) n ∧
      delivered s inp t = (List.range n).map (bitstreamByte content) := by
  induction t with
  | zero => exact ⟨0, booting_reset (r := s) content (l 1) h.reset, rfl⟩
  | succ t ih =>
    obtain ⟨n, hboot, hdel⟩ := ih
    have hr := h.running (t + 1) (Nat.succ_pos t)
    have hcyc := hboot.quiet.engineCycle hr (h.flash.ready (t + 1)) (h.flash.data (t + 1))
      (h.flash.step (t + 1) hr)
    refine ⟨_, booting_step (r := core s inp (t + 1)) hboot hr (h.silent (t + 1) (Nat.succ_pos t)) hcyc, ?_⟩
    rw [delivered, collect_succ, hboot.handed_eq]
    rw [delivered] at hdel
    rw [hdel]
    cases hands (core s inp (t + 1)).flash (flashIn (core s inp (t + 1)) (inp (t + 1))) with
    | false => simp
    | true => simp [List.range_succ]

end Core

/-! ## An emulated flash -/

/-- The inputs of a card that is reset in cycle 0 and then left alone.  INIT_B answers the
pulse on PROG_B, DONE stays low. -/
def aloneIn (t : ℕ) : In := ⟨decide (0 < t), default, decide (t < 1300 ∨ 1400 ≤ t), false, false, false⟩

/-- A flash with a signature, and byte `a` of each address `a` besides. -/
def signedFlash (a : BitVec 24) : Byte :=
  if a.extractLsb' 2 22 = 0x180000#22 then cSdbSignature (a.extractLsb' 0 2).toNat
  else a.extractLsb' 0 8

/-- The core with the emulated flash boots without the host. -/
theorem alone_flashRun (content : BitVec 24 → Byte) (s : Regs (standIns content)) :
    FlashRun content s aloneIn fun t => (core s aloneIn t).spi.link where
  reset := rfl
  running _ ht := decide_eq_true ht
  silent _ _ := rfl
  flash := SpiFlash.master_answers fun _ => rfl

/-- In every boot from the flash the bytes handed to the loader are those of the bitstream
file in order, the byte that the loader latches is the last one handed over, and the loader
is started only if the flash has the signature. -/
theorem flash_boot_delivers (P : Parts) (content : BitVec 24 → Byte) (s : Regs P) (inp : ℕ → In)
    (l : ℕ → SpiLink) (h : FlashRun content s inp l) (t : ℕ) :
    (∃ n, n ≤ 0x408001 ∧ delivered s inp t = (List.range n).map (bitstreamByte content)) ∧
      ((core s inp (t + 1)).xldr.state = .readFifo2 →
        ∃ b, (delivered s inp t).getLast? = some b ∧
          (toXilinxBoot (core s inp (t + 1)) (inp (t + 1))).data = 0#24 ++ b) ∧
      ((core s inp (t + 1)).flash.xldrStart = true → Signed content 4) := by
  obtain ⟨n, hboot, hdel⟩ := booting_run h t
  refine ⟨⟨n, hboot.stage.le, hdel⟩, fun hs => ?_, hboot.start⟩
  obtain ⟨-, k, rfl, hdata⟩ := hboot.latch hs
  refine ⟨bitstreamByte content k, ?_, ?_⟩
  · rw [hdel, List.range_succ]
    simp
  · simp [toXilinxBoot, hboot.quiet.source, fromFlashLdr, FlashBoot.xldrDataO, hdata]

/-- The emulated flash, in the middle of the bitstream. -/
theorem flash_boot_delivers_signed :
    (∃ n, n ≤ 0x408001 ∧ delivered (powerUp signedFlash) aloneIn 2000 =
        (List.range n).map (bitstreamByte signedFlash)) ∧
      ((core (powerUp signedFlash) aloneIn 2001).xldr.state = .readFifo2 →
        ∃ b, (delivered (powerUp signedFlash) aloneIn 2000).getLast? = some b ∧
          (toXilinxBoot (core (powerUp signedFlash) aloneIn 2001) (aloneIn 2001)).data = 0#24 ++ b) ∧
      ((core (powerUp signedFlash) aloneIn 2001).flash.xldrStart = true → Signed signedFlash 4) :=
  flash_boot_delivers _ signedFlash _ aloneIn _ (alone_flashRun signedFlash _) 2000

end Svec.Boot.FlashStream
