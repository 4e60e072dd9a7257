/-
  Boot/FlashPins.lean --- a boot from the flash at the configuration pins.

  `Boot/FlashStream.lean` says which bytes the flash boot engine hands to the
  loader.  The engine offers one byte at a time, and takes the next from the flash
  while the loader shifts: a cycle of the loader is one of the serialiser of
  `Loader/Serialise.lean` on a queue of at most that byte.
-/
import Svec.Boot.FlashStream
import Svec.Boot.HostMode

set_option autoImplicit false

namespace Svec.Boot.FlashPins

open Svec.Data Svec.Sync Svec.Hdl Svec.Hdl.Bootloader Svec.Boot.FlashStream Svec.Boot.HostMode
open Svec.Loader Svec.Loader.Serialise
open Svec.Loader.Delivery (Opening)
open Svec.Hdl.XilinxLoader (csrRd)

variable {P : Parts}

/-! ## What the engine offers -/

/-- The entry on the data port of the engine. -/
def onDataPort (f : FlashBoot.Regs) : FifoEntry := ⟨f.xldrDsize, f.xldrDlast, FlashBoot.xldrDataO f⟩

/-- A byte as the engine offers it. -/
def byteEntry (b : Byte) : FifoEntry := ⟨0#2, false, 0#24 ++ b⟩

theorem bits_byteEntry (b : Byte) : (byteEntry b).bits false = byteBits b := by
  have hfirst : (0#24 ++ b : Word).extractLsb' 0 8 = b := BitVec.extractLsb'_append_eq_right
  unfold byteEntry FifoEntry.bits FifoEntry.bytes leBytes
  simp [hfirst]

/-- The size and the last flag are those of a byte once the engine has offered one. -/
def Plain (f : FlashBoot.Regs) (n : ℕ) : Prop :=
  f.state = .loadBsByte ∨ 0 < n → f.xldrDsize = 0#2 ∧ f.xldrDlast = false

/-- The engine comes to `LOAD_BS_BYTE` with the byte from the flash. -/
theorem fetched {f : FlashBoot.Regs} {fi : FlashBoot.In} (hrst : fi.rstN = true)
    (hen : fi.enable = true) (hload : f.state ≠ .loadBsByte)
    (hnext : (FlashBoot.step f fi).state = .loadBsByte) :
    f.state = .fetchBsByte ∧ fi.flashReady = true := by
  have hmain : (FlashBoot.pMain f fi).state = .loadBsByte := hnext
  unfold FlashBoot.pMain at hmain
  rw [hrst, hen] at hmain
  cases hs : f.state <;> rw [hs] at hmain <;>
    simp only [Bool.not_true, Bool.or_false, Bool.false_eq_true, if_false, FlashBoot.fCheckSignature] at hmain
  case loadBsByte => exact absurd hs hload
  case fetchBsByte =>
    refine ⟨rfl, ?_⟩
    cases hready : fi.flashReady with
    | true => rfl
    | false => simp [hready] at hmain
  all_goals
    exfalso
    revert hmain
    (repeat' split) <;> simp [hs]

theorem plain_step {f : FlashBoot.Regs} {fi : FlashBoot.In} (hrst : fi.rstN = true)
    (hen : fi.enable = true) {n : ℕ} (h : Plain f n) :
    Plain (FlashBoot.step f fi) (n + (hands f fi).toNat) := by
  intro hnext
  by_cases hfetch : f.state = .fetchBsByte ∧ fi.flashReady = true
  · simp [FlashBoot.step, FlashBoot.pMain, hrst, hen, hfetch.1, hfetch.2]
  -- Otherwise the ports stay, and the engine has offered a byte before.
  have hsame : (FlashBoot.step f fi).xldrDsize = f.xldrDsize ∧
      (FlashBoot.step f fi).xldrDlast = f.xldrDlast := by
    show (FlashBoot.pMain f fi).xldrDsize = _ ∧ (FlashBoot.pMain f fi).xldrDlast = _
    unfold FlashBoot.pMain
    rw [hrst, hen]
    cases hs : f.state <;>
      simp only [Bool.not_true, Bool.or_false, Bool.false_eq_true, if_false, FlashBoot.fCheckSignature] <;>
      (repeat' split) <;> simp_all
  have hbefore : f.state = .loadBsByte ∨ 0 < n := by
    by_contra hno
    obtain ⟨hload, hn⟩ := not_or.mp hno
    rw [not_hands rfl hload] at hnext
    rcases hnext with hnext | hnext
    · exact hfetch (fetched hrst hen hload hnext)
    · exact hn hnext
  rw [hsame.1, hsame.2]
  exact h hbefore

/-! ## START -/

/-- START was not out yet. -/
def Before (f : FlashBoot.Regs) : Prop :=
  f.xldrStart = false ∧ f.state ≠ .waitSelectBitstream ∧ f.state ≠ .fetchBsByte ∧ f.state ≠ .loadBsByte

/-- START is out. -/
def Pulsing (f : FlashBoot.Regs) : Prop := f.xldrStart = true ∧ f.state = .waitSelectBitstream

/-- START will not be out again. -/
def After (f : FlashBoot.Regs) : Prop :=
  f.xldrStart = false ∧ (f.state = .waitSelectBitstream ∨ f.state = .fetchBsByte ∨
    f.state = .loadBsByte ∨ f.state = .noBitstream ∨ f.state = .bootDone)

/-- On the way through the bitstream. -/
def Engaged (f : FlashBoot.Regs) : Prop :=
  f.xldrStart = false ∧
    (f.state = .waitSelectBitstream ∨ f.state = .fetchBsByte ∨ f.state = .loadBsByte)

theorem Engaged.after {f : FlashBoot.Regs} (h : Engaged f) : After f := by
  obtain ⟨hstart, hs | hs | hs⟩ := h
  · exact ⟨hstart, .inl hs⟩
  · exact ⟨hstart, .inr (.inl hs)⟩
  · exact ⟨hstart, .inr (.inr (.inl hs))⟩

section Engine

variable {f : FlashBoot.Regs} {fi : FlashBoot.In}

theorem after_step (hrst : fi.rstN = true) (hen : fi.enable = true) (h : After f ∨ Pulsing f) :
    After (FlashBoot.step f fi) := by
  have hs : f.state = .waitSelectBitstream ∨ f.xldrStart = false ∧ (f.state = .fetchBsByte ∨
      f.state = .loadBsByte ∨ f.state = .noBitstream ∨ f.state = .bootDone) := by
    rcases h with ⟨hstart, hs | hs⟩ | ⟨-, hs⟩
    · exact .inl hs
    · exact .inr ⟨hstart, hs⟩
    · exact .inl hs
  unfold After FlashBoot.step FlashBoot.pMain
  rw [hrst, hen]
  rcases hs with hs | ⟨hstart, hs | hs | hs | hs⟩ <;> rw [hs] <;>
    simp only [Bool.not_true, Bool.or_false, Bool.false_eq_true, if_false]
  · split <;> simp
  · split <;> simp [hstart]
  · split
    · split
      · simp [hstart]
      · split <;> simp [hstart]
    · simp [hstart]
  · simp [hstart]
  · simp [hstart]

/-- The engine leaves the bitstream only by a byte that it hands over: the last one, or with DONE. -/
theorem engaged_step (hrst : fi.rstN = true) (hen : fi.enable = true) (h : Engaged f ∨ Pulsing f) :
    Engaged (FlashBoot.step f fi) ∨ hands f fi = true ∧ (fi.xldrDone = true ∨
      (FlashBoot.step f fi).state = .noBitstream ∧ f.byteCount = FlashBoot.cBitstreamSize) := by
  have hs : f.state = .waitSelectBitstream ∨ f.xldrStart = false ∧ (f.state = .fetchBsByte ∨
      f.state = .loadBsByte) := by
    rcases h with ⟨hstart, hs | hs⟩ | ⟨-, hs⟩
    · exact .inl hs
    · exact .inr ⟨hstart, hs⟩
    · exact .inl hs
  unfold Engaged FlashBoot.step FlashBoot.pMain hands
  rw [hrst, hen]
  rcases hs with hs | ⟨hstart, hs | hs⟩ <;> rw [hs] <;>
    simp only [Bool.not_true, Bool.or_false, Bool.false_eq_true, if_false]
  · left
    split <;> simp
  · left
    split <;> simp [hstart]
  · cases hrd : fi.xldrRd with
    | false => simp [hstart]
    | true =>
      cases hdone : fi.xldrDone with
      | true => simp
      | false => by_cases hlast : f.byteCount = FlashBoot.cBitstreamSize <;> simp [hstart, hlast]

theorem before_step (hrst : fi.rstN = true) (hen : fi.enable = true) (h : Before f) :
    Before (FlashBoot.step f fi) ∨ Pulsing (FlashBoot.step f fi) := by
  obtain ⟨hstart, hwait, hfetch, hload⟩ := h
  unfold Before Pulsing FlashBoot.step FlashBoot.pMain
  rw [hrst, hen]
  cases hs : f.state <;>
    simp only [Bool.not_true, Bool.or_false, Bool.false_eq_true, if_false, FlashBoot.fCheckSignature]
  case waitSelectBitstream => exact absurd hs hwait
  case fetchBsByte => exact absurd hs hfetch
  case loadBsByte => exact absurd hs hload
  case selectBitstream => exact .inr (by simp)
  all_goals
    left
    (repeat' split) <;> simp [hstart, hs]

end Engine

/-! ## The loader -/

/-- The loader shifts out bytes that are not marked as the last one. -/
def Shifting (x : XilinxLoader.Regs) : Prop :=
  match x.state with
  | .readFifo => True
  | .readFifo2 => x.xlxCclk = false
  | .outputBit => x.dLast = false
  | .clockEdge => x.xlxCclk = false ∧ x.dLast = false
  | _ => False

/-- A bit is due while DONE is high: the load is over. -/
def SeesDone (x : XilinxLoader.Regs) (xi : XilinxLoader.In) : Prop :=
  x.state = .outputBit ∧ x.tick = true ∧ xi.doneSynced = true

/-- A loader that does not see DONE finds it low where a bit is due. -/
theorem low_of_unseen {x : XilinxLoader.Regs} {xi : XilinxLoader.In} (hunseen : ¬ SeesDone x xi)
    (hs : x.state = .outputBit) (ht : x.tick = true) : xi.doneSynced = false := by
  cases hd : xi.doneSynced with
  | false => rfl
  | true => exact absurd ⟨hs, ht, hd⟩ hunseen

/-- As long as the loader does not see DONE it runs as if DONE were low. -/
theorem unseen_step {x : XilinxLoader.Regs} {xi : XilinxLoader.In} (hunseen : ¬ SeesDone x xi)
    (h : Shifting x) : XilinxLoader.step x xi = XilinxLoader.step x { xi with doneSynced := false } := by
  cases hd : xi.doneSynced with
  | false => rw [← hd]
  | true =>
    have hmain : XilinxLoader.pMainFsm x xi = XilinxLoader.pMainFsm x { xi with doneSynced := false } := by
      unfold Shifting at h
      unfold XilinxLoader.pMainFsm
      cases hs : x.state <;> rw [hs] at h <;> simp only
      case outputBit =>
        have ht : x.tick = false := by
          cases ht : x.tick with
          | false => rfl
          | true => exact absurd ((low_of_unseen hunseen hs ht).symm.trans hd) (by decide)
        rw [ht]
        rfl
      all_goals first | rfl | exact h.elim
    unfold XilinxLoader.step
    rw [hmain]
    rfl

theorem shifting_step {x : XilinxLoader.Regs} {xi : XilinxLoader.In} (hrun : xi.Running)
    (hunseen : ¬ SeesDone x xi) (hlast : x.state = .readFifo2 → xi.csrDlast = false)
    (h : Shifting x) : Shifting (XilinxLoader.step x xi) := by
  unfold Shifting at h
  cases hs : x.state with
  | readFifo =>
    cases he : xi.csrEmpty <;> simp [Shifting, XilinxLoader.pMainFsm, hrun.guard, hs, he]
  | readFifo2 =>
    rw [hs] at h
    cases ht : x.tick <;> simp [Shifting, XilinxLoader.pMainFsm, hrun.guard, hs, ht, h, hlast hs]
  | outputBit =>
    rw [hs] at h
    cases ht : x.tick with
    | false => simp [Shifting, XilinxLoader.pMainFsm, hrun.guard, hs, ht, h]
    | true =>
      have hdone := low_of_unseen hunseen hs ht
      simp [Shifting, XilinxLoader.pMainFsm, hrun.guard, hs, ht, h, hdone]
  | clockEdge =>
    rw [hs] at h
    cases ht : x.tick
    · simp [Shifting, XilinxLoader.pMainFsm, hrun.guard, hs, ht, h]
    · by_cases hb : x.bitCounter = 0#5 <;>
        simp [Shifting, XilinxLoader.pMainFsm, hrun.guard, hs, ht, h.2, hb]
  | _ => rw [hs] at h; exact h.elim

/-- The flag DONE stays while the loader shifts. -/
theorem shifting_csrDone {x : XilinxLoader.Regs} {xi : XilinxLoader.In} (hrun : xi.Running)
    (h : Shifting x) :
    (XilinxLoader.step x xi).csrDone = x.csrDone := by
  unfold Shifting at h
  rw [XilinxLoader.step_csrDone]
  unfold XilinxLoader.pMainFsm
  rw [hrun.guard]
  cases hs : x.state <;> rw [hs] at h <;> simp only [Bool.false_eq_true, if_false] <;>
    first | exact h.elim | ((repeat' split) <;> rfl)

/-- From PROG_B to the first entry. -/
theorem opening_next {x : XilinxLoader.Regs} {xi : XilinxLoader.In} (hrun : xi.Running)
    (h : Opening x.state) : Opening (XilinxLoader.step x xi).state ∨
      (XilinxLoader.step x xi).state = .readFifo ∨ (XilinxLoader.step x xi).state = .idle := by
  rcases h with hs | hs | hs <;> by_cases ht : x.timeoutCounter = 0#21 <;>
    cases hb : xi.initBSynced <;>
    simp [XilinxLoader.pMainFsm, hrun.guard, hs, ht, hb, Opening]

theorem clocked_nil {x : XilinxLoader.Regs} {xi : XilinxLoader.In}
    (h : x.state = .idle ∨ Opening x.state) : clocked x (XilinxLoader.step x xi) = [] := by
  unfold clocked
  split
  · rename_i hedge
    rw [Bool.and_eq_true, Bool.not_eq_true'] at hedge
    rcases (cclk_rises_only hedge.1 hedge.2).2.2 with hs | hs <;> rw [hs] at h <;>
      exact absurd h (by decide)
  · rfl

/-! ## A cycle of the core -/

/-- The loader with what the engine offers, as a serialiser. -/
def offered (r : Regs P) : Feed :=
  ⟨r.xldr, if r.flash.xldrEmpty then [] else [onDataPort r.flash], onDataPort r.flash⟩

/-- The bits inside the loader that no CCLK edge has sampled yet. -/
def flashInLoader (r : Regs P) : List Bool := (offered r).pending false

section Cycle

variable {r : Regs P} {i : In} {content : BitVec 24 → Byte} {l l' : SpiLink} {n : ℕ}

theorem offered_empty (r : Regs P) (b : Bool) : (offered r).empty ⟨false, true, b⟩ = r.flash.xldrEmpty := by
  unfold offered Feed.empty
  cases r.flash.xldrEmpty <;> rfl

theorem toXilinxBoot_quiet (h : Quiet r) : toXilinxBoot r i = fromFlashLdr r := by
  rw [toXilinxBoot, h.source]

theorem running_quiet (h : Quiet r) (hr : i.rstN = true) : (xldrIn r i).Running :=
  ⟨hr, congrArg XilinxBootIn.swrst (toXilinxBoot_quiet h)⟩

/-- What the loader reads, but for DONE, is what the serialiser reads. -/
theorem offered_loaderIn (hsource : r.bootSource = .flash) (hr : i.rstN = true)
    (hstart : r.flash.xldrStart = false) : { xldrIn r i with doneSynced := false } =
      (offered r).loaderIn false 1#7 ⟨false, true, (xldrIn r i).initBSynced⟩ := by
  unfold Feed.loaderIn
  rw [offered_empty]
  simp [xldrIn, toXilinxBoot, hsource, fromFlashLdr, hstart, FlashBoot.xldrClkDiv, offered, onDataPort, hr]

/-- While the loader latches a byte, its port holds it. -/
theorem onDataPort_latch (h : Booting content r l n) (hplain : Plain r.flash n)
    (hs : r.xldr.state = .readFifo2) :
    ∃ k, n = k + 1 ∧ onDataPort r.flash = byteEntry (bitstreamByte content k) := by
  obtain ⟨-, k, rfl, hdata⟩ := h.latch hs
  obtain ⟨hsize, hlast⟩ := hplain (.inr (Nat.succ_pos k))
  exact ⟨k, rfl, by rw [onDataPort, hsize, hlast, FlashBoot.xldrDataO, hdata, byteEntry]⟩

theorem onDataPort_hands (h : Booting content r l n) (hplain : Plain r.flash n)
    (hhand : hands r.flash (flashIn r i) = true) :
    onDataPort r.flash = byteEntry (bitstreamByte content n) := by
  have hs : r.flash.state = .loadBsByte := by
    have hboth : r.flash.state = .loadBsByte ∧ (flashIn r i).xldrRd = true := by simpa [hands] using hhand
    exact hboth.1
  have hdata := h.stage.of_state
  rw [hs] at hdata
  obtain ⟨hsize, hlast⟩ := hplain (.inl hs)
  rw [onDataPort, hsize, hlast, FlashBoot.xldrDataO, hdata, byteEntry]

theorem serial_offered (h : Booting content r l n) (hplain : Plain r.flash n) (hshift : Shifting r.xldr) :
    (offered r).Serial := by
  refine ⟨fun e he => ?_, ?_⟩
  · have hnil : (offered r).queue.dropLast = [] := by
      unfold offered
      cases r.flash.xldrEmpty <;> rfl
    rw [hnil] at he
    exact absurd he List.not_mem_nil
  · have hst : (offered r).ldr.state = r.xldr.state := rfl
    rw [hst]
    unfold Shifting at hshift
    cases hs : r.xldr.state <;> rw [hs] at hshift <;> simp only at hshift ⊢
    case readFifo2 =>
      obtain ⟨k, -, hport⟩ := onDataPort_latch h hplain hs
      have hlast : (offered r).cur.xlast = false := congrArg FifoEntry.xlast hport
      exact ⟨hshift, fun htrue => absurd (htrue.symm.trans hlast) (by decide)⟩
    case outputBit => exact fun htrue => absurd (htrue.symm.trans hshift) (by decide)
    case clockEdge => exact ⟨hshift.1, fun htrue => absurd (htrue.symm.trans hshift.2) (by decide)⟩

theorem pending_congr {msbf : Bool} {a b : Feed} (hldr : a.ldr = b.ldr)
    (hcur : a.ldr.state = .readFifo2 → a.cur = b.cur) : a.pending msbf = b.pending msbf := by
  unfold Feed.pending
  rw [← hldr]
  cases hs : a.ldr.state <;> simp only
  rw [hcur hs]

/-- A byte is handed over when the loader reads it. -/
theorem hands_eq_csrRd (h : Booting content r l n) :
    hands r.flash (flashIn r i) = csrRd r.xldr r.flash.xldrEmpty := by
  rw [← h.hands_eq]
  simp [toFlashLdr, fromXilinxBoot, toXilinxBoot, fromFlashLdr, h.quiet.source, csrRd]

/-- A cycle of the loader moves the bits of the byte that it takes. -/
theorem shifts (h : Booting content r l n) (hplain : Plain r.flash n)
    (hnext : Booting content (step r i) l' (n + (hands r.flash (flashIn r i)).toNat))
    (hplain' : Plain (step r i).flash (n + (hands r.flash (flashIn r i)).toNat)) (hr : i.rstN = true)
    (hstart : r.flash.xldrStart = false) (hunseen : ¬ SeesDone r.xldr (xldrIn r i))
    (hshift : Shifting r.xldr) :
    flashInLoader r ++ (handed r i).flatMap byteBits =
      clocked r.xldr (step r i).xldr ++ flashInLoader (step r i) := by
  have hin := offered_loaderIn h.quiet.source hr hstart
  generalize hi' : (⟨false, true, (xldrIn r i).initBSynced⟩ : FeedIn) = i' at hin
  have hempty : (offered r).empty i' = r.flash.xldrEmpty := hi' ▸ offered_empty r _
  have hldr : ((offered r).step false 1#7 i').ldr = (step r i).xldr := by
    rw [step_xldr, unseen_step hunseen hshift, hin]
    rfl
  have hcons : (offered r).remaining false = clocked r.xldr (step r i).xldr ++
      ((offered r).step false 1#7 i').remaining false := by
    rw [← hldr]
    exact (step_conserves (serial_offered h hplain hshift)).2
  have hrd := hands_eq_csrRd (i := i) h
  have hhanded := h.handed_eq (i := i)
  have hcur : ((offered r).step false 1#7 i').cur = onDataPort r.flash := by
    show (if csrRd r.xldr ((offered r).empty i') then (offered r).queue.headD _ else _) = _
    have hhead : (offered r).queue.headD (onDataPort r.flash) = onDataPort r.flash := by
      unfold offered
      cases r.flash.xldrEmpty <;> rfl
    split
    · exact hhead
    · rfl
  have hqueue : ((offered r).step false 1#7 i').queue =
      if csrRd r.xldr r.flash.xldrEmpty then (offered r).queue.tail else (offered r).queue := by
    rw [← hempty]
    rfl
  -- What the port holds in the next cycle matters only while the loader latches it.
  have hport : (step r i).xldr.state = .readFifo2 → onDataPort r.flash = onDataPort (step r i).flash := by
    intro hs'
    obtain ⟨k, hk, hport'⟩ := onDataPort_latch hnext hplain' hs'
    rw [hport']
    cases hhand : hands r.flash (flashIn r i) with
    | true =>
      rw [hhand] at hk
      have hkn : k = n := by simpa using hk.symm
      rw [onDataPort_hands h hplain hhand, hkn]
    | false =>
      rw [hhand, Bool.toNat_false, Nat.add_zero] at hk
      have hs : r.xldr.state = .readFifo2 := by
        obtain ⟨-, ⟨hs, he⟩ | ⟨hs, -⟩⟩ := readFifo2_entry hs'
        · have he' : r.flash.xldrEmpty = false :=
            hempty.symm.trans ((congrArg XilinxLoader.In.csrEmpty hin).symm.trans he)
          rw [hrd, csrRd, hs, he'] at hhand
          exact absurd hhand (by decide)
        · exact hs
      obtain ⟨k', hk', hport''⟩ := onDataPort_latch h hplain hs
      rw [hport'', show k' = k by omega]
  have hpending : ((offered r).step false 1#7 i').pending false = flashInLoader (step r i) :=
    pending_congr hldr fun hs => by
      rw [hldr] at hs
      rw [hcur]
      exact hport hs
  rw [Feed.remaining, Feed.remaining, hqueue, hpending, ← hrd] at hcons
  rw [hhanded]
  cases hhand : hands r.flash (flashIn r i) with
  | true =>
    have hfull : r.flash.xldrEmpty = false := by
      rw [hrd, csrRd] at hhand
      simp only [Bool.and_eq_true, Bool.not_eq_true'] at hhand
      exact hhand.1
    have hone : (offered r).queue = [onDataPort r.flash] := by simp [offered, hfull]
    rw [hhand, if_pos rfl, hone, onDataPort_hands h hplain hhand] at hcons
    rw [if_pos rfl]
    show (offered r).pending false ++ _ = _
    simpa [bits_byteEntry] using hcons
  | false =>
    rw [hhand, if_neg Bool.false_ne_true, ← List.append_assoc] at hcons
    rw [if_neg Bool.false_ne_true, List.flatMap_nil, List.append_nil]
    exact List.append_cancel_right hcons

end Cycle

/-! ## A whole boot -/

/-- How a boot stands after `t` cycles: what was sampled, and where the engine and the loader are. -/
inductive Stands (content : BitVec 24 → Byte) (r : Regs P) (n : ℕ) (samples : List Bool) : Prop where
  /-- START was not out yet. -/
  | waiting (hf : Before r.flash ∨ Pulsing r.flash) (hs : r.xldr.state = .idle) (hnone : samples = [])
  | opening (hf : Engaged r.flash) (hs : Opening r.xldr.state) (hn : n = 0) (hnone : samples = [])
  /-- INIT_B did not answer. -/
  | abandoned (hf : After r.flash) (hs : r.xldr.state = .idle) (hnone : samples = [])
  /-- The engine is done after its last byte, or if the loader reports DONE. -/
  | loading (hf : After r.flash) (hs : Shifting r.xldr)
      (hend : r.xldr.csrDone = false → Engaged r.flash ∨ r.flash.state = .noBitstream ∧ n = 0x408001)
      (hsum : samples ++ flashInLoader r = (List.range n).flatMap fun k => byteBits (bitstreamByte content k))

section Step

variable {r : Regs P} {i : In} {content : BitVec 24 → Byte} {l l' : SpiLink} {n : ℕ} {samples : List Bool}

/-- A loader that rests takes no part in the boot until START. -/
theorem rests (h : Booting content r l n) (hr : i.rstN = true) (hstart : r.flash.xldrStart = false)
    (hs : r.xldr.state = .idle) : (step r i).xldr.state = .idle :=
  XilinxLoader.idle_step (running_quiet h.quiet hr)
    ((congrArg XilinxBootIn.start (toXilinxBoot_quiet h.quiet)).trans hstart) hs

/-- When START is out nothing was handed over. -/
theorem nothing_handed {f : FlashBoot.Regs} {m : M25pFlash.Regs} (h : Stage content f m l n)
    (hs : f.state = .waitSelectBitstream) : n = 0 := by
  cases h with
  | fetching n _ hs' => exact absurd (hs.symm.trans hs') (by decide)
  | loading n _ hs' => exact absurd (hs.symm.trans hs') (by decide)
  | ended n _ hs' => rcases hs' with hs' | hs' <;> exact absurd (hs.symm.trans hs') (by decide)
  | _ => rfl

theorem hands_opening (h : Booting content r l n) (hs : Opening r.xldr.state) :
    hands r.flash (flashIn r i) = false := by
  rw [hands_eq_csrRd h, csrRd]
  rcases hs with hs | hs | hs <;> simp [hs]

/-- The engine goes on until its last byte if the loader does not report DONE. -/
theorem engaged_on (h : Booting content r l n)
    (hnext : Booting content (step r i) l' (n + (hands r.flash (flashIn r i)).toNat)) (hr : i.rstN = true)
    (hend : Engaged r.flash ∨ r.flash.state = .noBitstream ∧ n = 0x408001) (hflag : r.xldr.csrDone = false) :
    Engaged (step r i).flash ∨
      (step r i).flash.state = .noBitstream ∧ n + (hands r.flash (flashIn r i)).toNat = 0x408001 := by
  have hen : (flashIn r i).enable = true := by simp [flashIn, h.quiet.source]
  rcases hend with hf | ⟨hs, hn⟩
  · rcases @engaged_step r.flash (flashIn r i) hr hen (.inl hf) with hf' | ⟨hhand, hdone | ⟨hs', hcount⟩⟩
    · exact .inl hf'
    · have hflag' : (flashIn r i).xldrDone = r.xldr.csrDone := by
        simp [flashIn, toFlashLdr, fromXilinxBoot, h.quiet.source]
      exact absurd (hdone.symm.trans (hflag'.trans hflag)) (by decide)
    · refine .inr ⟨hs', ?_⟩
      have hload : r.flash.state = .loadBsByte := by
        have hboth : r.flash.state = .loadBsByte ∧ (flashIn r i).xldrRd = true := by
          simpa [hands] using hhand
        exact hboth.1
      have hn := h.count (by rw [hload]; decide)
      have hle := hnext.stage.le
      rw [hhand] at hle ⊢
      rw [hcount] at hn
      have htoNat := congrArg BitVec.toNat hn
      simp only [FlashBoot.cBitstreamSize, BitVec.toNat_ofNat, Bool.toNat_true] at htoNat hle ⊢
      omega
  · have hnot : hands r.flash (flashIn r i) = false := not_hands hs (by decide)
    refine .inr ⟨?_, by rw [hnot, hn]; rfl⟩
    simp [FlashBoot.step, FlashBoot.pMain, hr, h.quiet.source, hs, flashIn]

theorem stands_step (h : Booting content r l n) (hplain : Plain r.flash n)
    (hnext : Booting content (step r i) l' (n + (hands r.flash (flashIn r i)).toNat))
    (hplain' : Plain (step r i).flash (n + (hands r.flash (flashIn r i)).toNat)) (hr : i.rstN = true)
    (hunseen : ¬ SeesDone r.xldr (xldrIn r i)) (hk : Stands content r n samples) :
    Stands content (step r i) (n + (hands r.flash (flashIn r i)).toNat)
      (samples ++ clocked r.xldr (step r i).xldr) := by
  have hen : (flashIn r i).enable = true := by simp [flashIn, h.quiet.source]
  have hrun := running_quiet h.quiet hr
  have hafter : After r.flash → After (step r i).flash := fun hf => after_step hr hen (.inl hf)
  cases hk with
  | waiting hf hs hnone =>
    have hnone' : samples ++ clocked r.xldr (step r i).xldr = [] := by
      rw [hnone, List.nil_append]
      exact clocked_nil (.inl hs)
    rcases hf with hf | hf
    · exact .waiting (before_step hr hen hf) (rests h hr hf.1 hs) hnone'
    · have hgo : (xldrIn r i).csrStart = true :=
        (congrArg XilinxBootIn.start (toXilinxBoot_quiet h.quiet)).trans hf.1
      have hnot : hands r.flash (flashIn r i) = false := not_hands hf.2 (by decide)
      rw [nothing_handed h.stage hf.2, hnot]
      refine .opening ?_ (.inl (XilinxLoader.extendProg_of_start hrun hgo hs).1) rfl hnone'
      exact (engaged_step hr hen (.inr hf)).resolve_right fun hno => Bool.false_ne_true (hnot.symm.trans hno.1)
  | opening hf hs hn hnone =>
    have hnone' : samples ++ clocked r.xldr (step r i).xldr = [] := by
      rw [hnone, List.nil_append]
      exact clocked_nil (.inr hs)
    have hnot := hands_opening (i := i) h hs
    have hf' : Engaged (step r i).flash := (@engaged_step r.flash (flashIn r i) hr hen (.inl hf)).resolve_right
      fun hno => Bool.false_ne_true (hnot.symm.trans hno.1)
    rw [hnot, hn]
    rcases opening_next hrun hs with hs' | hs' | hs'
    · exact .opening hf' hs' rfl hnone'
    · refine .loading hf'.after ?_ (fun _ => .inl hf') ?_
      · show Shifting (XilinxLoader.step r.xldr (xldrIn r i))
        unfold Shifting
        rw [hs']
        trivial
      · have hnil : flashInLoader (step r i) = [] := by
          show Feed.pending false ⟨XilinxLoader.step r.xldr (xldrIn r i), _, _⟩ = []
          unfold Feed.pending
          simp only [hs']
        rw [hnone', hnil]
        rfl
    · exact .abandoned hf'.after hs' hnone'
  | abandoned hf hs hnone =>
    refine .abandoned (hafter hf) (rests h hr hf.1 hs) ?_
    rw [hnone, List.nil_append]
    exact clocked_nil (.inl hs)
  | loading hf hs hend hsum =>
    have hlast : r.xldr.state = .readFifo2 → (xldrIn r i).csrDlast = false := by
      intro hs2
      obtain ⟨k, -, hport⟩ := onDataPort_latch h hplain hs2
      have hxlast : r.flash.xldrDlast = false := congrArg FifoEntry.xlast hport
      exact (congrArg XilinxBootIn.dlast (toXilinxBoot_quiet h.quiet)).trans hxlast
    refine .loading (hafter hf) (shifting_step hrun hunseen hlast hs) (fun hflag => ?_) ?_
    · rw [step_xldr, shifting_csrDone hrun hs] at hflag
      exact engaged_on h hnext hr (hend hflag) hflag
    have hmove := shifts h hplain hnext hplain' hr hf.1 hunseen hs
    rw [List.append_assoc, ← hmove, ← List.append_assoc, hsum, h.handed_eq]
    cases hands r.flash (flashIn r i) with
    | false => simp
    | true => simp [List.range_succ]

end Step

section Run

variable {content : BitVec 24 → Byte} {s : Regs P} {inp : ℕ → In} {l : ℕ → SpiLink}

theorem pinSamples_succ (s : Regs P) (inp : ℕ → In) (a t : ℕ) : pinSamples s inp a (t + 1) =
    pinSamples s inp a t ++ clocked (core s inp (a + t)).xldr (core s inp (a + t + 1)).xldr := rfl

/-- The loader sees DONE in cycle `t` after the reset. -/
def SeesDoneAt (s : Regs P) (inp : ℕ → In) (t : ℕ) : Prop :=
  SeesDone (core s inp (t + 1)).xldr (xldrIn (core s inp (t + 1)) (inp (t + 1)))

/-- The loader does not see DONE in the first `t` cycles after the reset.  Where it does not shift a
byte out, DONE may be high. -/
def Unseen (s : Regs P) (inp : ℕ → In) (t : ℕ) : Prop := ∀ j, j < t → ¬ SeesDoneAt s inp j

/-- How a boot stands at any time. -/
theorem stands_run (h : FlashRun content s inp l) {t : ℕ} (hunseen : Unseen s inp t) :
    ∃ n, Booting content (core s inp (t + 1)) (l (t + 1)) n ∧ Plain (core s inp (t + 1)).flash n ∧
      delivered s inp t = (List.range n).map (bitstreamByte content) ∧
      Stands content (core s inp (t + 1)) n (pinSamples s inp 1 t) := by
  induction t with
  | zero =>
    refine ⟨0, booting_reset (r := s) content (l 1) h.reset, ?_, rfl, .waiting (.inl ?_) ?_ rfl⟩
    · rintro (hs | hn)
      · have hstartup : (core s inp 1).flash.state = .startup := by
          simp [core_succ, FlashBoot.step, FlashBoot.pMain, flashIn, h.reset]
        exact absurd (hstartup.symm.trans hs) (by decide)
      · exact absurd hn (by decide)
    · simp [Before, core_succ, FlashBoot.step, FlashBoot.pMain, flashIn, h.reset]
    · simp [core_succ, XilinxLoader.pMainFsm, xldrIn, h.reset]
  | succ t ih =>
    obtain ⟨n, hboot, hplain, hdel, hstands⟩ := ih fun j hj => hunseen j (Nat.lt_succ_of_lt hj)
    have hr := h.running (t + 1) (Nat.succ_pos t)
    have hen : (flashIn (core s inp (t + 1)) (inp (t + 1))).enable = true := by
      simp [flashIn, hboot.quiet.source]
    have hcyc := hboot.quiet.engineCycle hr (h.flash.ready (t + 1)) (h.flash.data (t + 1))
      (h.flash.step (t + 1) hr)
    have hnext := booting_step hboot hr (h.silent (t + 1) (Nat.succ_pos t)) hcyc
    have hplain' : Plain (core s inp (t + 1 + 1)).flash _ := @plain_step _ (flashIn _ _) hr hen _ hplain
    refine ⟨_, hnext, hplain', ?_, ?_⟩
    · rw [delivered, collect_succ, hboot.handed_eq]
      rw [delivered] at hdel
      rw [hdel]
      cases hands (core s inp (t + 1)).flash (flashIn (core s inp (t + 1)) (inp (t + 1))) with
      | false => simp
      | true => simp [List.range_succ]
    · rw [pinSamples_succ, Nat.add_comm 1 t]
      exact stands_step hboot hplain hnext hplain' hr (hunseen t (Nat.lt_succ_self t)) hstands

/-- In a boot from the flash, until the loader sees DONE, what CCLK edges have sampled at the pins and
what is inside the loader are together the bits of the bytes that the engine has handed over, most
significant bit first, or nothing was sampled and INIT_B has not answered. -/
theorem samples_of_delivered (h : FlashRun content s inp l) {t : ℕ} (hunseen : Unseen s inp t) :
    (pinSamples s inp 1 t = [] ∧ ((core s inp (t + 1)).xldr.state = .idle ∨
        Opening (core s inp (t + 1)).xldr.state)) ∨
      pinSamples s inp 1 t ++ flashInLoader (core s inp (t + 1)) =
        (delivered s inp t).flatMap byteBits := by
  obtain ⟨n, -, -, hdel, hstands⟩ := stands_run h hunseen
  cases hstands with
  | waiting _ hs hnone => exact .inl ⟨hnone, .inl hs⟩
  | opening _ hs _ hnone => exact .inl ⟨hnone, .inr hs⟩
  | abandoned _ hs hnone => exact .inl ⟨hnone, .inl hs⟩
  | loading _ _ _ hsum =>
    rw [hdel, List.flatMap_map]
    exact .inr hsum

end Run

/-- DONE of the emulated card stays low. -/
theorem alone_unseen (content : BitVec 24 → Byte) (t : ℕ) : ¬ SeesDoneAt (powerUp content) aloneIn t := by
  rintro ⟨-, -, hdone⟩
  have hlow : (xldrIn (core (powerUp content) aloneIn (t + 1)) (aloneIn (t + 1))).doneSynced = false :=
    done_low rfl (fun _ => rfl) _ _
  exact absurd (hdone.symm.trans hlow) (by decide)

/-- In every boot from the flash and until the loader sees DONE, what CCLK edges have sampled at the pins
and what is inside the loader are together the bits of the first bytes of the bitstream file, those
that the engine has handed over, unless INIT_B has not answered and nothing was sampled. -/
theorem boot_shifts_out (P : Parts) (content : BitVec 24 → Byte) (s : Regs P) (inp : ℕ → In)
    (l : ℕ → SpiLink) (h : FlashRun content s inp l) (t : ℕ) (hunseen : Unseen s inp t) :
    ∃ n, n ≤ 0x408001 ∧ delivered s inp t = (List.range n).map (bitstreamByte content) ∧
      ((pinSamples s inp 1 t = [] ∧ ((core s inp (t + 1)).xldr.state = .idle ∨
          Opening (core s inp (t + 1)).xldr.state)) ∨
        pinSamples s inp 1 t ++ flashInLoader (core s inp (t + 1)) =
          ((List.range n).map (bitstreamByte content)).flatMap byteBits) := by
  obtain ⟨n, hboot, -, hdel, -⟩ := stands_run h hunseen
  exact ⟨n, hboot.stage.le, hdel, hdel ▸ samples_of_delivered h hunseen⟩

/-- The emulated flash, in the middle of the bitstream. -/
theorem boot_shifts_out_signed :
    ∃ n, n ≤ 0x408001 ∧
      delivered (powerUp signedFlash) aloneIn 2000 = (List.range n).map (bitstreamByte signedFlash) ∧
      ((pinSamples (powerUp signedFlash) aloneIn 1 2000 = [] ∧
          ((core (powerUp signedFlash) aloneIn 2001).xldr.state = .idle ∨
            Opening (core (powerUp signedFlash) aloneIn 2001).xldr.state)) ∨
        pinSamples (powerUp signedFlash) aloneIn 1 2000 ++
            flashInLoader (core (powerUp signedFlash) aloneIn 2001) =
          ((List.range n).map (bitstreamByte signedFlash)).flatMap byteBits) :=
  boot_shifts_out _ signedFlash _ aloneIn _ (alone_flashRun signedFlash _) 2000
    fun j _ => alone_unseen signedFlash j

end Svec.Boot.FlashPins
