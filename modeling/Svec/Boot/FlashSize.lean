/-
  Boot/FlashSize.lean --- how many bytes a boot from the flash can take.

  The engine counts the bytes it hands over and compares the count with
  `c_BITSTREAM_SIZE` before it counts the byte in hand.  So it gives up with the
  byte that exceeds the size: a loader that has taken `c_BITSTREAM_SIZE` bytes
  without reporting done is offered another, and with that one the boot ends.
-/
import Svec.Boot.FlashStream

set_option autoImplicit false

namespace Svec.Boot.FlashSize

open Svec.Data Svec.Sync Svec.Hdl Svec.Boot.FlashReader Svec.Boot.FlashStream
open Svec.Hdl.FlashBoot (Regs In State step pMain cBitstreamSize cSdbBitstreamOffset)

/-- The engine at every cycle from `s` on. -/
def engine (s : Regs) (inp : ℕ → In) : ℕ → Regs := run step s inp

/-- The bytes handed to the loader in the cycles before `t`. -/
def handedCount (s : Regs) (inp : ℕ → In) : ℕ → ℕ
  | 0 => 0
  | t + 1 => handedCount s inp t + (hands (engine s inp t) (inp t)).toNat

/-- The loader has not reported done with any byte it took before `t`. -/
def NotDone (s : Regs) (inp : ℕ → In) (t : ℕ) : Prop :=
  ∀ u, u < t → hands (engine s inp u) (inp u) = true → (inp u).xldrDone = false

/-- The bitstream size itself bounds what is handed over, and a loader that takes as much without
reporting done ends the boot. -/
structure BoundedBySize (s : Regs) (inp : ℕ → In) : Prop where
  count : ∀ t, handedCount s inp t ≤ cBitstreamSize.toNat
  ends : ∀ t, handedCount s inp t = cBitstreamSize.toNat → NotDone s inp t →
    ∃ m, ∀ u, m ≤ u → (engine s inp u).state = .noBitstream

/-! ## The phases of a boot -/

/-- The states before the first byte. -/
def Early (st : State) : Prop :=
  st ≠ .fetchBsByte ∧ st ≠ .loadBsByte ∧ st ≠ .noBitstream ∧ st ≠ .bootDone

/-- What each state says about the number `n` of bytes handed over, and whether the loader has
been `quiet` about being done. -/
inductive Phase (f : Regs) (n : ℕ) (quiet : Prop) : Prop where
  | early (hs : Early f.state) (hn : n = 0) (hq : quiet)
  | loading (hs : f.state = .fetchBsByte ∨ f.state = .loadBsByte) (hn : n ≤ cBitstreamSize.toNat)
      (hq : quiet)
  | refused (hs : f.state = .noBitstream) (hn : n = 0 ∨ n = cBitstreamSize.toNat + 1)
  | booted (hs : f.state = .bootDone) (hn : n ≤ cBitstreamSize.toNat + 1) (hq : ¬ quiet)

theorem Phase.of_startup {f : Regs} {n : ℕ} {quiet : Prop} (h : Phase f n quiet)
    (hs : f.state = .startup) : n = 0 := by
  cases h with
  | early _ hn _ => exact hn
  | loading hst _ _ => rcases hst with hst | hst <;> exact absurd (hst.symm.trans hs) (by decide)
  | refused hst _ => exact absurd (hst.symm.trans hs) (by decide)
  | booted hst _ _ => exact absurd (hst.symm.trans hs) (by decide)

section Step

variable {f : Regs} {i : In} {n : ℕ} {quiet : Prop}

/-- Before the first byte the engine goes on to another early state, to the first byte or to
`NO_BITSTREAM`. -/
theorem early_step (hrst : i.rstN = true) (hen : i.enable = true) (hs : Early f.state) :
    Early (step f i).state ∨ (step f i).state = .fetchBsByte ∨ (step f i).state = .noBitstream := by
  show Early (pMain f i).state ∨ (pMain f i).state = .fetchBsByte ∨ (pMain f i).state = .noBitstream
  obtain ⟨hfetch, hload, hno, hdone⟩ := hs
  unfold pMain FlashBoot.fCheckSignature
  rw [hrst, hen]
  cases hst : f.state
  case fetchBsByte => exact absurd hst hfetch
  case loadBsByte => exact absurd hst hload
  case noBitstream => exact absurd hst hno
  case bootDone => exact absurd hst hdone
  all_goals
    simp only
    (repeat' split) <;> simp [Early]

theorem phase_step (hrst : i.rstN = true) (hen : i.enable = true)
    (hcount : f.state ≠ .startup → f.byteCount = BitVec.ofNat 24 n) (h : Phase f n quiet) :
    Phase (step f i) (n + (hands f i).toNat) (quiet ∧ (hands f i = true → i.xldrDone = false)) := by
  cases h with
  | early hs hn hq =>
    have hno : hands f i = false := not_hands rfl hs.2.1
    have hq' : quiet ∧ (hands f i = true → i.xldrDone = false) := ⟨hq, by simp [hno]⟩
    rw [hn, hno]
    rcases early_step hrst hen hs with hs' | hs' | hs'
    · exact .early hs' rfl (hno ▸ hq')
    · exact .loading (.inl hs') (Nat.zero_le _) (hno ▸ hq')
    · exact .refused hs' (.inl rfl)
  | refused hs hn =>
    have hno : hands f i = false := not_hands hs (by decide)
    rw [hno]
    exact .refused (by simp [step, pMain, hrst, hen, hs]) hn
  | booted hs hn hq =>
    have hno : hands f i = false := not_hands hs (by decide)
    rw [hno]
    exact .booted (by simp [step, pMain, hrst, hen, hs]) hn fun h => hq h.1
  | loading hs hn hq =>
    rcases hs with hs | hs
    · have hno : hands f i = false := not_hands hs (by decide)
      rw [hno]
      refine .loading ?_ hn ⟨hq, by simp⟩
      cases hready : i.flashReady <;> simp [step, pMain, hrst, hen, hs, hready]
    cases hrd : i.xldrRd with
    | false =>
      have hno : hands f i = false := by simp [hands, hrd]
      rw [hno]
      exact .loading (.inr (by simp [step, pMain, hrst, hen, hs, hrd])) hn ⟨hq, by simp⟩
    | true =>
      have hhand : hands f i = true := by simp [hands, hs, hrd]
      rw [hhand]
      cases hdone : i.xldrDone with
      | true =>
        exact .booted (by simp [step, pMain, hrst, hen, hs, hrd, hdone]) (Nat.succ_le_succ hn)
          fun h => absurd (h.2 rfl) (by simp)
      | false =>
        have hb := hcount (by simp [hs])
        by_cases hfull : n = cBitstreamSize.toNat
        · refine .refused ?_ (.inr (by rw [hfull]; rfl))
          simp [step, pMain, hrst, hen, hs, hrd, hdone, hb, hfull]
        · refine .loading (.inl ?_) (by simp only [Bool.toNat_true]; omega) ⟨hq, fun _ => rfl⟩
          have hne : BitVec.ofNat 24 n ≠ cBitstreamSize := by
            intro heq
            have hlt : n < 2 ^ 24 := Nat.lt_of_le_of_lt hn (by decide)
            rw [← heq, BitVec.toNat_ofNat, Nat.mod_eq_of_lt hlt] at hfull
            exact hfull rfl
          simp [step, pMain, hrst, hen, hs, hrd, hdone, hb, hne]

end Step

/-! ## Runs -/

section Run

variable {s : Regs} {inp : ℕ → In}

theorem engine_succ (t : ℕ) : engine s inp (t + 1) = step (engine s inp t) (inp t) := rfl

theorem notDone_succ (t : ℕ) :
    NotDone s inp (t + 1) ↔
      NotDone s inp t ∧ (hands (engine s inp t) (inp t) = true → (inp t).xldrDone = false) := by
  constructor
  · intro h
    exact ⟨fun u hu => h u (by omega), h t (Nat.lt_succ_self t)⟩
  · rintro ⟨h, ht⟩ u hu
    rcases Nat.lt_succ_iff_lt_or_eq.mp hu with hlt | rfl
    · exact h u hlt
    · exact ht

/-- The state tells the count, and the byte counter counts. -/
theorem phase_run (hs : s.state = .startup) (hrun : ∀ t, (inp t).rstN = true ∧ (inp t).enable = true)
    (t : ℕ) :
    Phase (engine s inp t) (handedCount s inp t) (NotDone s inp t) ∧
      ((engine s inp t).state = .startup → handedCount s inp t = 0) ∧
      ((engine s inp t).state ≠ .startup →
        (engine s inp t).byteCount = BitVec.ofNat 24 (handedCount s inp t)) := by
  induction t with
  | zero =>
    refine ⟨.early ?_ rfl fun u hu => absurd hu (Nat.not_lt_zero u), fun _ => rfl, fun h => absurd hs h⟩
    rw [show engine s inp 0 = s from rfl, hs]
    simp [Early]
  | succ t ih =>
    obtain ⟨hphase, hstart, hcount⟩ := ih
    obtain ⟨hrst, hen⟩ := hrun t
    have hphase' := phase_step hrst hen hcount hphase
    rw [← notDone_succ] at hphase'
    refine ⟨hphase', hphase'.of_startup, fun _ => count_step hrst hen hstart hcount⟩

/-- One byte too many at most. -/
theorem handedCount_le (hs : s.state = .startup)
    (hrun : ∀ t, (inp t).rstN = true ∧ (inp t).enable = true) (t : ℕ) :
    handedCount s inp t ≤ cBitstreamSize.toNat + 1 := by
  cases (phase_run hs hrun t).1 with
  | early _ hn _ => omega
  | loading _ hn _ => omega
  | refused _ hn => omega
  | booted _ hn _ => exact hn

/-- The byte too many is handed over after `c_BITSTREAM_SIZE` others, all without done. -/
theorem full_before (hs : s.state = .startup) (hrun : ∀ t, (inp t).rstN = true ∧ (inp t).enable = true)
    {t : ℕ} (ht : cBitstreamSize.toNat < handedCount s inp t) :
    ∃ u, u < t ∧ handedCount s inp u = cBitstreamSize.toNat ∧ NotDone s inp u := by
  induction t with
  | zero => exact absurd ht (Nat.not_lt_zero _)
  | succ t ih =>
    rcases Nat.lt_or_ge cBitstreamSize.toNat (handedCount s inp t) with hlt | hge
    · obtain ⟨u, hut, hu⟩ := ih hlt
      exact ⟨u, Nat.lt_succ_of_lt hut, hu⟩
    cases hhand : hands (engine s inp t) (inp t) with
    | false =>
      rw [handedCount, hhand] at ht
      exact absurd hge (Nat.not_le_of_lt ht)
    | true =>
      rw [handedCount, hhand] at ht
      have hfull : handedCount s inp t = cBitstreamSize.toNat := Nat.le_antisymm hge (Nat.lt_succ_iff.mp ht)
      have hload : (engine s inp t).state = .loadBsByte := by
        simp only [hands, Bool.and_eq_true, decide_eq_true_eq] at hhand
        exact hhand.1
      refine ⟨t, Nat.lt_succ_self t, hfull, ?_⟩
      cases (phase_run hs hrun t).1 with
      | early hst _ _ => exact absurd hload hst.2.1
      | loading _ _ hq => exact hq
      | refused hst _ => exact absurd (hload.symm.trans hst) (by decide)
      | booted hst _ _ => exact absurd (hload.symm.trans hst) (by decide)

/-- After `c_BITSTREAM_SIZE` bytes without done the boot has not ended. -/
theorem not_refused_of_full (hs : s.state = .startup)
    (hrun : ∀ t, (inp t).rstN = true ∧ (inp t).enable = true) {t : ℕ}
    (ht : handedCount s inp t = cBitstreamSize.toNat) : (engine s inp t).state ≠ .noBitstream := by
  intro hno
  cases (phase_run hs hrun t).1 with
  | early hst _ _ => exact hst.2.2.1 hno
  | loading hst _ _ => rcases hst with hst | hst <;> exact absurd (hst.symm.trans hno) (by decide)
  | refused _ hn =>
    rw [ht] at hn
    exact absurd hn (by decide)
  | booted hst _ _ => exact absurd (hst.symm.trans hno) (by decide)

theorem handedCount_mono {t u : ℕ} (h : t ≤ u) : handedCount s inp t ≤ handedCount s inp u := by
  induction h with
  | refl => exact Nat.le_refl _
  | step _ ih => exact Nat.le_trans ih (Nat.le_add_right _ _)

/-- After the byte too many none follows. -/
theorem handedCount_stays (hs : s.state = .startup)
    (hrun : ∀ t, (inp t).rstN = true ∧ (inp t).enable = true) {t u : ℕ}
    (ht : handedCount s inp t = cBitstreamSize.toNat + 1) (hu : t ≤ u) :
    handedCount s inp u = cBitstreamSize.toNat + 1 :=
  Nat.le_antisymm (handedCount_le hs hrun u) (ht ▸ handedCount_mono hu)

theorem NotDone.stays (hs : s.state = .startup)
    (hrun : ∀ t, (inp t).rstN = true ∧ (inp t).enable = true) {t u : ℕ} (h : NotDone s inp t)
    (ht : handedCount s inp t = cBitstreamSize.toNat + 1) : NotDone s inp u := by
  intro v hv hhand
  rcases Nat.lt_or_ge v t with hlt | hge
  · exact h v hlt hhand
  · have hnow := handedCount_stays hs hrun ht hge
    have hnext := handedCount_stays hs hrun ht (Nat.le_succ_of_le hge)
    rw [handedCount, hnow, hhand] at hnext
    exact absurd hnext (by decide)

end Run

/-! ## The engine with its flash -/

/-- The engine with the controller and the flash behind it. -/
structure Entity where
  f : Regs
  m : M25pFlash.Regs
  spi : SpiFlash.State

/-- What the engine reads, with the answers `rd` and `done` of the loader. -/
def Entity.engineIn (e : Entity) (rd done : Bool) : In where
  rstN := true
  enable := true
  xldrDone := done
  xldrRd := rd
  flashReady := M25pFlash.readyO e.m e.f.flashSetAddr e.f.flashRead
  flashData := e.m.dataO

/-- The FAR register without an access of the host. -/
def noFar : FarOut := ⟨false, 0#8, false, false⟩

/-- What `spi_master` is given. -/
def Entity.spiIn (e : Entity) : SpiIn := M25pFlash.spiIn e.m true noFar false

def Entity.m25pIn (content : BitVec 24 → Byte) (e : Entity) : M25pFlash.In where
  rstN := true
  far := noFar
  setAddr := e.f.flashSetAddr
  addr := e.f.flashAddr
  read := e.f.flashRead
  spiReady := ((SpiFlash.master content).out e.spi e.spiIn).ready
  spiRdata := ((SpiFlash.master content).out e.spi e.spiIn).data

def Entity.step (content : BitVec 24 → Byte) (e : Entity) (i : Bool × Bool) : Entity where
  f := FlashBoot.step e.f (e.engineIn i.1 i.2)
  m := M25pFlash.step e.m (e.m25pIn content)
  spi := SpiFlash.step content e.spi e.spiIn

/-- The state after a reset. -/
def Entity.reset : Entity where
  f := default
  m := { (default : M25pFlash.Regs) with readyInt := true }
  spi := ⟨⟨0, 0#8, .none⟩, 0#8⟩

/-- The entity at every cycle after a reset, with a flash of the given content. -/
def entity (content : BitVec 24 → Byte) (loader : ℕ → Bool × Bool) : ℕ → Entity :=
  run (Entity.step content) Entity.reset loader

/-- What the engine in it reads. -/
def entityIn (content : BitVec 24 → Byte) (loader : ℕ → Bool × Bool) (t : ℕ) : In :=
  (entity content loader t).engineIn (loader t).1 (loader t).2

section Entity

variable {content : BitVec 24 → Byte} {loader : ℕ → Bool × Bool}

theorem entity_succ (t : ℕ) :
    entity content loader (t + 1) = (entity content loader t).step content (loader t) := rfl

/-- The engine of the entity runs as it does alone on what it reads. -/
theorem engine_entity (t : ℕ) :
    engine default (entityIn content loader) t = (entity content loader t).f := by
  induction t with
  | zero => rfl
  | succ t ih =>
    rw [engine_succ, ih]
    rfl

theorem hostless (content : BitVec 24 → Byte) (loader : ℕ → Bool × Bool) (t : ℕ) :
    (entity content loader t).m.spiStartHost = false ∧ (entity content loader t).m.spiWdataHost = 0#8 := by
  induction t with
  | zero => exact ⟨rfl, rfl⟩
  | succ t ih =>
    rw [entity_succ]
    exact ⟨rfl, ih.2⟩

theorem entity_cycle (content : BitVec 24 → Byte) (loader : ℕ → Bool × Bool) (t : ℕ) :
    EngineCycle content (entity content loader t).f (entityIn content loader t)
      (entity content loader t).m ((entity content loader t).m25pIn content)
      (entity content loader t).spi.link (entity content loader (t + 1)).spi.link where
  cycle :=
    { rstN := rfl
      noLoad := rfl
      ready := by
        obtain ⟨hstart, -⟩ := hostless content loader t
        simp [Entity.m25pIn, SpiFlash.master, Entity.spiIn, M25pFlash.spiIn, hstart]
      data := fun _ => rfl
      link := ⟨false, by
        obtain ⟨hstart, hdata⟩ := hostless content loader t
        have hin : (entity content loader t).spiIn = ⟨true, (entity content loader t).m.spiCs,
            (entity content loader t).m.spiStart, (entity content loader t).m.spiWdata, false⟩ := by
          simp [Entity.spiIn, M25pFlash.spiIn, noFar, hstart, hdata]
        have hlink : LinkStep content (entity content loader t).spiIn (entity content loader t).spi.link
            (entity content loader (t + 1)).spi.link := SpiFlash.link_step rfl
        rwa [hin] at hlink⟩ }
  rstN := rfl
  enable := rfl
  ready := rfl
  data := rfl
  setAddr := rfl
  read := rfl
  addr := rfl

/-- The engine waits for byte `n`. -/
structure Awaits (content : BitVec 24 → Byte) (loader : ℕ → Bool × Bool) (t n : ℕ) : Prop where
  state : (entity content loader t).f.state = .fetchBsByte
  setAddr : (entity content loader t).f.flashSetAddr = false
  byteCount : (entity content loader t).f.byteCount = BitVec.ofNat 24 n
  count : handedCount default (entityIn content loader) t = n

theorem Awaits.no_hands {t n : ℕ} (h : Awaits content loader t n) :
    handedCount default (entityIn content loader) (t + 1) = n := by
  have hno : hands (engine default (entityIn content loader) t) (entityIn content loader t) = false :=
    not_hands (by rw [engine_entity, h.state]) (by decide)
  rw [handedCount, hno, h.count]
  rfl

/-- While the flash is not ready the engine keeps waiting. -/
theorem Awaits.wait {t n : ℕ} (h : Awaits content loader t n)
    (hready : (entityIn content loader t).flashReady = false) :
    Awaits content loader (t + 1) n ∧ (entity content loader (t + 1)).f.flashRead = false := by
  have hrst : (entityIn content loader t).rstN = true := rfl
  have hen : (entityIn content loader t).enable = true := rfl
  have hf : (entity content loader (t + 1)).f =
      FlashBoot.step (entity content loader t).f (entityIn content loader t) := rfl
  have hstep : pMain (entity content loader t).f (entityIn content loader t) =
      { (entity content loader t).f with flashRead := false } := by
    simp [pMain, hrst, hen, h.state, hready]
  refine ⟨⟨?_, ?_, ?_, h.no_hands⟩, ?_⟩ <;> rw [hf, FlashBoot.step, hstep]
  · exact h.state
  · exact h.setAddr
  · exact h.byteCount

/-- The byte that was requested comes, however long the transfer takes. -/
theorem Awaits.served {t n : ℕ} {a : BitVec 24} (h : Awaits content loader t n)
    (hread : (entity content loader t).f.flashRead = false)
    (hreading : Reading content (entity content loader t).m (entity content loader t).spi.link a)
    (hstart : (entity content loader t).m.spiStart = false) :
    ∃ u, Awaits content loader u n ∧ (entity content loader u).f.flashRead = false ∧
      At (entity content loader u).m (entity content loader u).spi.link (a + 1#24) ∧
      (entity content loader u).m.readyInt = true := by
  obtain ⟨k, hk⟩ : ∃ k, (entity content loader t).spi.link.busy = k := ⟨_, rfl⟩
  induction k generalizing t with
  | zero =>
    have hcyc := (entity_cycle content loader t).cycle
    obtain ⟨hwait, hread'⟩ := h.wait (by simp [entityIn, Entity.engineIn, M25pFlash.readyO, hreading.notReady])
    have hdone : (M25pFlash.step (entity content loader t).m ((entity content loader t).m25pIn content)
        ).state = .idle := by
      have hspi : ((entity content loader t).m25pIn content).spiReady = true := by
        rw [hcyc.ready, hk, hstart]
        rfl
      simp [step_running hcyc, M25pFlash.pMainFsm, hcyc.rstN, hcyc.noLoad, hreading.state, hspi]
    rcases reading_step hcyc hreading with ⟨hreading', -⟩ | ⟨-, hat, hint, -⟩
    · exact absurd (hdone.symm.trans hreading'.state) (by decide)
    · exact ⟨t + 1, hwait, hread', hat, hint⟩
  | succ k ih =>
    have hcyc := (entity_cycle content loader t).cycle
    obtain ⟨hwait, hread'⟩ := h.wait (by simp [entityIn, Entity.engineIn, M25pFlash.readyO, hreading.notReady])
    rcases reading_step hcyc hreading with ⟨hreading', hstart'⟩ | ⟨-, hat, hint, -⟩
    · refine ih hwait hread' hreading' hstart' ?_
      have := (link_hold hcyc hstart).1
      omega
    · exact ⟨t + 1, hwait, hread', hat, hint⟩

/-- A byte is handed over once it is there. -/
theorem Awaits.hand (hloader : ∀ t, loader t = (true, false)) {t n : ℕ} {a : BitVec 24}
    (h : Awaits content loader t n) (hread : (entity content loader t).f.flashRead = false)
    (hat : At (entity content loader t).m (entity content loader t).spi.link a)
    (hint : (entity content loader t).m.readyInt = true) :
    handedCount default (entityIn content loader) (t + 2) = n + 1 ∧
      (BitVec.ofNat 24 n ≠ cBitstreamSize → Awaits content loader (t + 2) (n + 1) ∧
        (entity content loader (t + 2)).f.flashRead = true ∧
        At (entity content loader (t + 2)).m (entity content loader (t + 2)).spi.link a) := by
  have hready : (entityIn content loader t).flashReady = true := by
    simp [entityIn, Entity.engineIn, M25pFlash.readyO, hint, hread, h.setAddr]
  obtain ⟨hload, hset', hread', hb'⟩ : (entity content loader (t + 1)).f.state = .loadBsByte ∧
      (entity content loader (t + 1)).f.flashSetAddr = false ∧
      (entity content loader (t + 1)).f.flashRead = false ∧
      (entity content loader (t + 1)).f.byteCount = BitVec.ofNat 24 n := by
    have hf : (entity content loader (t + 1)).f =
        FlashBoot.step (entity content loader t).f (entityIn content loader t) := rfl
    have hrst : (entityIn content loader t).rstN = true := rfl
    have hen : (entityIn content loader t).enable = true := rfl
    rw [hf]
    simp [FlashBoot.step, pMain, hrst, hen, h.state, hready, h.setAddr, hread, h.byteCount]
  have hat' := at_step (entity_cycle content loader t).cycle hat h.setAddr hread
  have hat'' :=
    at_step (entity_cycle content loader (t + 1)).cycle hat' hset' hread'
  have hrd : (entityIn content loader (t + 1)).xldrRd = true := by
    simp [entityIn, Entity.engineIn, hloader]
  have hdone : (entityIn content loader (t + 1)).xldrDone = false := by
    simp [entityIn, Entity.engineIn, hloader]
  have hhand : hands (engine default (entityIn content loader) (t + 1)) (entityIn content loader (t + 1)) =
      true := by
    rw [engine_entity]
    simp [hands, hload, hrd]
  have hcount : handedCount default (entityIn content loader) (t + 2) = n + 1 := by
    rw [handedCount, hhand, h.no_hands]
    rfl
  refine ⟨hcount, fun hne => ?_⟩
  have hf : (entity content loader (t + 2)).f =
      FlashBoot.step (entity content loader (t + 1)).f (entityIn content loader (t + 1)) := rfl
  have hrst : (entityIn content loader (t + 1)).rstN = true := rfl
  have hen : (entityIn content loader (t + 1)).enable = true := rfl
  refine ⟨⟨?_, ?_, ?_, hcount⟩, ?_, hat''⟩ <;> rw [hf] <;>
    simp [FlashBoot.step, pMain, hrst, hen, hload, hset', hb', hrd, hdone, hne, BitVec.ofNat_add]

/-- From one request to the next. -/
theorem Awaits.round (hloader : ∀ t, loader t = (true, false)) {t n : ℕ} {a : BitVec 24}
    (h : Awaits content loader t n) (hread : (entity content loader t).f.flashRead = true)
    (hat : At (entity content loader t).m (entity content loader t).spi.link a) :
    ∃ u, handedCount default (entityIn content loader) u = n + 1 ∧
      (BitVec.ofNat 24 n ≠ cBitstreamSize → Awaits content loader u (n + 1) ∧
        (entity content loader u).f.flashRead = true ∧
        At (entity content loader u).m (entity content loader u).spi.link (a + 1#24)) := by
  -- The request is taken, and the transfer started.
  obtain ⟨hreading, hstart⟩ :=
    reading_of_read (entity_cycle content loader t).cycle hat h.setAddr hread
  obtain ⟨h1, hread1⟩ := h.wait (by simp [entityIn, Entity.engineIn, M25pFlash.readyO, hread])
  have hreading1 : Reading content (entity content loader (t + 1)).m
      (entity content loader (t + 1)).spi.link a := hreading
  obtain ⟨h2, hread2⟩ :=
    h1.wait (by simp [entityIn, Entity.engineIn, M25pFlash.readyO, hreading1.notReady])
  have hcyc1 := (entity_cycle content loader (t + 1)).cycle
  rcases reading_step hcyc1 hreading1 with ⟨hreading2, hstart2⟩ | ⟨hstart', -⟩
  · obtain ⟨u, hu, hreadu, hatu, hint⟩ := h2.served hread2 hreading2 hstart2
    exact ⟨u + 2, hu.hand hloader hreadu hatu hint⟩
  · exact absurd (hstart'.symm.trans hstart) Bool.false_ne_true

/-- A loader that takes every byte and is never done gets one byte after the other. -/
theorem Awaits.all (hloader : ∀ t, loader t = (true, false)) {t : ℕ}
    (h : Awaits content loader t 0) (hread : (entity content loader t).f.flashRead = true) {a : BitVec 24}
    (hat : At (entity content loader t).m (entity content loader t).spi.link a) {n : ℕ}
    (hn : n ≤ cBitstreamSize.toNat) :
    ∃ u, Awaits content loader u n ∧ (entity content loader u).f.flashRead = true ∧
      ∃ a, At (entity content loader u).m (entity content loader u).spi.link a := by
  induction n with
  | zero => exact ⟨t, h, hread, a, hat⟩
  | succ n ih =>
    obtain ⟨u, hu, hreadu, b, hatu⟩ := ih (by omega)
    have hne : BitVec.ofNat 24 n ≠ cBitstreamSize := by
      intro heq
      have hlt : n < 2 ^ 24 := Nat.lt_of_lt_of_le hn (by decide)
      rw [← heq, BitVec.toNat_ofNat, Nat.mod_eq_of_lt hlt] at hn
      exact Nat.not_succ_le_self n hn
    obtain ⟨v, -, hv⟩ := hu.round hloader hreadu hatu
    obtain ⟨hv, hreadv, hatv⟩ := hv hne
    exact ⟨v, hv, hreadv, _, hatv⟩

end Entity

/-- A loader that takes every byte and is never done. -/
def neverDone (_ : ℕ) : Bool × Bool := (true, false)

/-- The byte after the last one is handed over as well. -/
theorem hands_one_more :
    ¬ ∀ (content : BitVec 24 → Byte) (loader : ℕ → Bool × Bool) (t : ℕ),
      handedCount default (entityIn content loader) t ≤ cBitstreamSize.toNat := by
  intro hall
  obtain ⟨size, hsize⟩ : ∃ n, n = cBitstreamSize.toNat := ⟨_, rfl⟩
  have hloader : ∀ t, neverDone t = (true, false) := fun _ => rfl
  have hfirst : Awaits signedFlash neverDone 305 0 := by
    constructor <;> decide +kernel
  have hat : At (entity signedFlash neverDone 305).m (entity signedFlash neverDone 305).spi.link
      cSdbBitstreamOffset := by
    refine ⟨⟨?_, ?_⟩, ?_, ?_, ?_⟩ <;> decide +kernel
  obtain ⟨u, hu, hread, a, hatu⟩ :=
    hfirst.all hloader (by decide +kernel) hat (Nat.le_of_eq hsize)
  obtain ⟨v, hcount, -⟩ := hu.round hloader hread hatu
  have hle := hall signedFlash neverDone v
  rw [hcount, ← hsize] at hle
  exact Nat.not_succ_le_self size hle

/-- One byte more than the bitstream size is handed over at most, and a loader that takes as many
without reporting done ends the boot. -/
theorem one_more_at_most (s : Regs) (inp : ℕ → In) (hs : s.state = .startup)
    (hrun : ∀ t, (inp t).rstN = true ∧ (inp t).enable = true) :
    (∀ t, handedCount s inp t ≤ cBitstreamSize.toNat + 1) ∧
      ∀ t, handedCount s inp t = cBitstreamSize.toNat + 1 → NotDone s inp t →
        ∀ u, t ≤ u → (engine s inp u).state = .noBitstream := by
  refine ⟨handedCount_le hs hrun, fun t ht hquiet u hu => ?_⟩
  have hfull := handedCount_stays hs hrun ht hu
  cases (phase_run hs hrun u).1 with
  | early _ hn _ => exact absurd (hfull.symm.trans hn) (by decide)
  | loading _ hn _ => exact absurd (hfull ▸ hn) (by decide)
  | refused hst _ => exact hst
  | booted _ _ hdone => exact absurd (hquiet.stays hs hrun ht) hdone

theorem one_more_at_most_neverDone :
    (∀ t, handedCount default (entityIn signedFlash neverDone) t ≤ cBitstreamSize.toNat + 1) ∧
      ∀ t, handedCount default (entityIn signedFlash neverDone) t = cBitstreamSize.toNat + 1 →
        NotDone default (entityIn signedFlash neverDone) t →
        ∀ u, t ≤ u → (engine default (entityIn signedFlash neverDone) u).state = .noBitstream :=
  one_more_at_most default (entityIn signedFlash neverDone) rfl fun _ => ⟨rfl, rfl⟩

/-- The bitstream size bounds a boot exactly if the loader never takes as many bytes without
reporting done. -/
theorem bounded_by_size_iff (s : Regs) (inp : ℕ → In) (hs : s.state = .startup)
    (hrun : ∀ t, (inp t).rstN = true ∧ (inp t).enable = true) :
    BoundedBySize s inp ↔ ¬ ∃ t, handedCount s inp t = cBitstreamSize.toNat ∧ NotDone s inp t := by
  constructor
  · rintro ⟨hcount, hends⟩ ⟨t, ht, hquiet⟩
    obtain ⟨m, hm⟩ := hends t ht hquiet
    have hmono := @handedCount_mono s inp _ _ (Nat.le_max_right m t)
    have hfull : handedCount s inp (max m t) = cBitstreamSize.toNat :=
      Nat.le_antisymm (hcount _) (ht ▸ hmono)
    exact not_refused_of_full hs hrun hfull (hm _ (Nat.le_max_left m t))
  · intro hnever
    refine ⟨fun t => ?_, fun t ht hquiet => absurd ⟨t, ht, hquiet⟩ hnever⟩
    by_contra hover
    obtain ⟨u, -, hu⟩ := full_before hs hrun (Nat.lt_of_not_le hover)
    exact hnever ⟨u, hu⟩

end Svec.Boot.FlashSize
