/-
  Host/ClockedOut.lean --- what is given to a host program comes out at the pins.

  Both programs begin a load with SWRST and START, feed the FIFO, and end with EXIT.
  The entries that they write are known from `Host/Stream.lean` and
  `Host/SvecFlasher.lean`, that the FIFO accepts them from `Host/Upload.lean`, and
  what the loader makes of them while it is left alone from `Loader/Delivery.lean`.
-/
import Svec.Host.Upload

set_option autoImplicit false

namespace Svec.Host.ClockedOut

open Svec.Data Svec.Sync Svec.Hdl Svec.Host Svec.Host.LoaderCard Svec.Loader.Session
  Svec.Loader.Serialise Svec.Loader.Delivery Svec.Host.Upload
open Svec.Loader.Stuck (fill pushed fill_add_pushed_le pushed_congr)
open Svec.Host.SvecCore (FpgaImageInfo SvecDev svecFpgaWriteInit svecFpgaWriteStart svecFpgaReset
  svecFpgaLoaderIsActive)
open Svec.Host.SvecFlasher (fifoLoop startAfpga programAfpga fifoLoop_runs csrWritel_eq_write)
open Svec.Host.Stream (pushedBytes pushedBytes_append MarksFinal writeAll writeAll_feeds writeWord_cases
  session taken lastWord pending pending_cleared Holding Session.NeverBusy svecFpgaWriteStop_ebusy
  eq_nil_of_pushedBytes)

variable {F : FifoSync Stamped 256} {s₀ : HostPath F} {env : Surroundings}

/-! ## SWRST and START -/

/-- The card after a write of SWRST. -/
def swrstState (env : Surroundings) (b : CardState) : CardState :=
  b.access env (csrInputs (quiet env b.regs (b.due env)) csrSwrst)
    { b.regs with csrMsbf := csrSwrst.getLsbD 4, csrClkdiv := csrSwrst.extractLsb' 8 6 }

/-- The card after writes of SWRST and START, in the byte order of the host programs. -/
def startState (env : Surroundings) (b : CardState) : CardState :=
  (swrstState env b).access env
    (csrInputs (quiet env (swrstState env b).regs ((swrstState env b).due env)) (csrStart ||| csrMsbf))
    { (swrstState env b).regs with
      csrMsbf := (csrStart ||| csrMsbf).getLsbD 4, csrClkdiv := (csrStart ||| csrMsbf).extractLsb' 8 6 }

/-- The cycle of SWRST. -/
def swrstCycle (env : Surroundings) (b : CardState) : ℕ := b.due env

/-- The cycle of START. -/
def startCycle (env : Surroundings) (b : CardState) : ℕ := (swrstState env b).due env

/-- What an earlier load left in the FIFO is gone before START: the loader drops an entry a cycle
from SWRST on. -/
def Drained (s₀ : HostPath F) (env : Surroundings) (b : CardState) : Prop :=
  fill (b.path F s₀ env (swrstCycle env b)) ≤ startCycle env b - swrstCycle env b

section Start

variable {b : CardState} {t : ℕ}

theorem swrst_lt_start (env : Surroundings) (b : CardState) : swrstCycle env b < startCycle env b :=
  Nat.lt_of_lt_of_le (Nat.lt_succ_self _) (now_le_due env (swrstState env b))

theorem startState_now (b : CardState) : (startState env b).now = startCycle env b + 1 := rfl

theorem wave_before_swrst (ht : t < swrstCycle env b) :
    (startState env b).wave env t = b.wave env t := by
  have hlt : t < (swrstState env b).due env := Nat.lt_trans ht (swrst_lt_start env b)
  exact (wave_access_of_lt hlt).trans (wave_access_of_lt ht)

theorem wave_at_swrst : (startState env b).wave env (swrstCycle env b) =
    csrInputs (quiet env b.regs (b.due env)) csrSwrst :=
  (wave_access_of_lt (swrst_lt_start env b)).trans wave_access_due

theorem wave_between (ht : swrstCycle env b < t) (ht' : t < startCycle env b) :
    (startState env b).wave env t = quiet env (swrstState env b).regs t :=
  (wave_access_of_lt ht').trans (wave_of_now_le ht)

theorem wave_at_start : (startState env b).wave env (startCycle env b) =
    csrInputs (quiet env (swrstState env b).regs (startCycle env b)) (csrStart ||| csrMsbf) :=
  wave_access_due

/-- The two writes are the reset sequence that the loader expects. -/
theorem resetSequence (env : Surroundings) (b : CardState) :
    ResetSequence ((startState env b).wave env) (swrstCycle env b)
      (startCycle env b - swrstCycle env b) := by
  have hlt := swrst_lt_start env b
  have hstart : swrstCycle env b + (startCycle env b - swrstCycle env b) = startCycle env b := by omega
  have hcases : ∀ t, swrstCycle env b ≤ t → t ≤ startCycle env b →
      t = swrstCycle env b ∨ (swrstCycle env b < t ∧ t < startCycle env b) ∨ t = startCycle env b := by
    omega
  refine ⟨?_, ?_, fun t ht ht' => ?_, fun t ht ht' => ?_, fun t ht ht' => ?_, fun t ht ht' => ?_,
    fun t ht ht' => ?_⟩
  · rw [wave_at_swrst]
    exact (by decide : csrSwrst.getLsbD 5 = true)
  · rw [hstart, wave_at_start]
    rfl
  · rcases hcases t (Nat.le_of_lt ht) (hstart ▸ ht') with rfl | ⟨h, h'⟩ | rfl
    · exact absurd ht (Nat.lt_irrefl _)
    · rw [wave_between h h']
      rfl
    · rw [wave_at_start]
      rfl
  · rw [wave_between ht (hstart ▸ ht')]
    rfl
  all_goals
    rcases hcases t ht (hstart ▸ ht') with rfl | ⟨h, h'⟩ | rfl
    · rw [wave_at_swrst]
      rfl
    · rw [wave_between h h']
      rfl
    · rw [wave_at_start]
      rfl

/-- After START the loader pulls PROG_B, and the FIFO is empty. -/
theorem started (hdrained : Drained s₀ env b) {inp : ℕ → HostIn}
    (hsame : ∀ t, t < (startState env b).now → inp t = (startState env b).wave env t) :
    (trace s₀ inp (startState env b).now).ldr.state = .extendProg ∧
      stored (trace s₀ inp (startState env b).now) = [] := by
  have hlt := swrst_lt_start env b
  obtain ⟨hstate, -, hcontents⟩ := after_start s₀ (by omega) (resetSequence env b)
  have hnow : swrstCycle env b + (startCycle env b - swrstCycle env b) + 1 = (startState env b).now := by
    rw [startState_now]
    omega
  rw [hnow] at hstate hcontents
  have htrace : trace s₀ inp (startState env b).now =
      trace s₀ ((startState env b).wave env) (startState env b).now :=
    run_congr fun t ht => by rw [hsame t ht]
  rw [htrace]
  refine ⟨hstate, ?_⟩
  have hbefore : trace s₀ ((startState env b).wave env) (swrstCycle env b) =
      b.path F s₀ env (swrstCycle env b) := path_congr fun k hk => wave_before_swrst hk
  rw [hbefore] at hcontents
  rw [stored, hcontents, List.drop_eq_nil_of_le, List.map_nil]
  exact Nat.le_trans hdrained (Nat.le_add_left _ _)

end Start

/-! ## EXIT -/

theorem wave_pause (s : CardState) : (s.pause env).wave env = s.wave env := by
  funext t
  rcases Nat.lt_trichotomy t (s.due env) with hlt | rfl | hgt
  · exact wave_access_of_lt hlt
  · exact wave_access_due.trans (wave_of_now_le (now_le_due env s)).symm
  · rw [wave_of_now_le (s := s) (Nat.le_trans (now_le_due env s) (Nat.le_of_lt hgt))]
    exact wave_of_now_le hgt

/-- The end of a program: nothing is pushed any more, and nothing is written before EXIT. -/
structure Winds (env : Surroundings) (s s' : CardState) : Prop where
  same : ∀ t, t < s.now → s'.wave env t = s.wave env t
  noPush : ∀ t, s.now ≤ t → (s'.wave env t).fifoPush = none
  tame : ∀ t, s.now ≤ t → (∀ u, s.now ≤ u → u ≤ t → (s'.wave env u).csrExit = false) →
    Tame s.regs (s'.wave env t)

theorem winds_refl (env : Surroundings) (s : CardState) : Winds env s s where
  same _ _ := rfl
  noPush t ht := by rw [wave_of_now_le ht]; rfl
  tame t ht _ := by rw [wave_of_now_le ht]; exact tame_quiet s.regs t

theorem winds_exit (env : Surroundings) (s : CardState) (r : CardRegs) :
    Winds env s (s.access env (csrInputs (quiet env s.regs (s.due env)) csrExit) r) where
  same t ht := wave_access_of_lt (Nat.lt_of_lt_of_le ht (now_le_due env s))
  noPush t ht := by
    rcases Nat.lt_trichotomy t (s.due env) with hlt | rfl | hgt
    · rw [wave_access_of_lt hlt, wave_of_now_le ht]
      rfl
    · rw [wave_access_due]
      rfl
    · have hnow : (s.access env (csrInputs (quiet env s.regs (s.due env)) csrExit) r).now ≤ t := hgt
      rw [wave_of_now_le hnow]
      rfl
  tame t ht hexit := by
    rcases Nat.lt_or_ge t (s.due env) with hlt | hge
    · rw [wave_access_of_lt hlt, wave_of_now_le ht]
      exact tame_quiet s.regs t
    · have hlow := hexit (s.due env) (now_le_due env s) hge
      rw [wave_access_due] at hlow
      have hbit : csrExit.getLsbD 6 = false := hlow
      exact absurd hbit (by decide)

theorem winds_of_ends {h g : Proc (loaderCard F s₀ env)} (hends : Ends h g) : Winds env h.st g.st := by
  have hexit : Winds env h.st (h.write csrExit regCsr).st := by
    rw [write_csr]
    exact winds_exit env h.st _
  cases hends with
  | here => exact winds_refl env h.st
  | exit => exact hexit
  | exitAndSleep =>
    have hwave : CardState.wave env ((h.write csrExit regCsr).usleepRange 10000 20000).st =
        CardState.wave env (h.write csrExit regCsr).st := wave_pause _
    exact ⟨fun t ht => by rw [hwave]; exact hexit.same t ht,
      fun t ht => by rw [hwave]; exact hexit.noPush t ht,
      fun t ht hx => by rw [hwave] at hx ⊢; exact hexit.tame t ht hx⟩

/-! ## A load -/

/-- Neither is EXIT written nor is DONE high. -/
def Undisturbed (i : HostIn) : Prop := i.csrExit = false ∧ i.doneSynced = false

instance (i : HostIn) : Decidable (Undisturbed i) := inferInstanceAs (Decidable (_ ∧ _))

/-- What comes out at the pins from START on, if `bits` is what was given to the program: until EXIT
or DONE nothing but these bits, in order, and all of them if INIT_B answers and neither comes
before. -/
structure ComesOut (s₀ : HostPath F) (inp : ℕ → HostIn) (a : ℕ) (bits : List Bool) : Prop where
  inOrder : ∀ k, (∀ j, j < k → Undisturbed (inp (a + j))) → sampled s₀ inp a k <+: bits
  all : ∀ r, (trace s₀ inp (a + r)).ldr.state = .readFifo →
    ∃ k, (∀ j, j < k → Undisturbed (inp (a + j))) ∧
      (sampled s₀ inp a k = bits ∨ ¬ Undisturbed (inp (a + k)))

theorem comesOut_of_uploads {b g after : CardState} {es : List FifoEntry} (hdrained : Drained s₀ env b)
    (hup : Uploads s₀ env (startState env b) g es) (hwinds : Winds env g after)
    (hlast : LastOnlyFinal es) :
    ComesOut s₀ (after.wave env) (startState env b).now (es.flatMap (FifoEntry.bits true)) := by
  have hle := hup.le
  have hsame : ∀ t, t < (startState env b).now →
      after.wave env t = (startState env b).wave env t := fun t ht =>
    (hwinds.same t (Nat.lt_of_lt_of_le ht hle)).trans (hup.same t ht)
  obtain ⟨hstart, hempty⟩ := started hdrained hsame
  have hentries : entriesFrom s₀ (after.wave env) (startState env b).now g.now = es := by
    rw [entriesFrom, hempty, List.nil_append, ← hup.taken]
    exact accepted_congr fun t ht => hwinds.same t (by omega)
  -- Until EXIT the flags of CSR are those that START was written with.
  have hcalm : ∀ k, (∀ j, j ≤ k → Undisturbed (after.wave env ((startState env b).now + j))) →
      Calm true 0#6 (after.wave env ((startState env b).now + k)) := by
    intro k hk
    have htame : Tame (startState env b).regs (after.wave env ((startState env b).now + k)) := by
      rcases Nat.lt_or_ge ((startState env b).now + k) g.now with hlt | hge
      · rw [hwinds.same _ hlt]
        exact hup.tame _ (Nat.le_add_right _ _) hlt
      · refine (hwinds.tame _ hge fun u hu hu' => ?_).of_same hup.csr
        have hlow := (hk (u - (startState env b).now) (by omega)).1
        rwa [show (startState env b).now + (u - (startState env b).now) = u by omega] at hlow
    exact ⟨htame.rstN, htame.csrSwrst, htame.csrStart, htame.csrMsbf, htame.csrClkdiv,
      htame.fifoClearBus, (hk k (Nat.le_refl k)).2⟩
  have hquiet : ∀ t, g.now ≤ t → (after.wave env t).fifoPush = none := hwinds.noPush
  refine ⟨fun k hk => ?_, fun r hread => ?_⟩
  · have hstands : Stands true s₀ (after.wave env) (startState env b).now g.now k := by
      refine stands_run hstart (hentries.symm ▸ hlast)
        (fun j hj => hcalm j fun i hi => hk i (Nat.lt_of_le_of_lt hi hj)) fun j _ => ?_
      rcases Nat.lt_or_ge ((startState env b).now + j) g.now with hlt | hge
      · exact .inl hlt
      · exact .inr (by simp [accepts, hquiet _ hge])
    cases hstands with
    | opening _ _ hnone => rw [hnone]; exact List.nil_prefix
    | abandoned _ hnone => rw [hnone]; exact List.nil_prefix
    | loading h => exact ⟨_, by rw [h.sum, hentries]⟩
  · have h := sampled_or_disturbed hstart (hentries.symm ▸ hlast) hquiet hread hcalm
    rwa [hentries] at h

/-- The bits of pushed entries are those of the bytes they stand for. -/
theorem bits_of_pushed {M : Machine} (ps : List (Push M)) :
    (ps.map fun p => p.entry).flatMap (FifoEntry.bits true) = (pushedBytes ps).flatMap byteBits := by
  induction ps with
  | nil => rfl
  | cons p ps ih =>
    rw [List.map_cons, List.flatMap_cons, ih]
    simp [pushedBytes, FifoEntry.bits]

theorem lastOnlyFinal_of_marksFinal {M : Machine} {ps : List (Push M)} (h : MarksFinal ps) :
    LastOnlyFinal (ps.map fun p => p.entry) := by
  obtain ⟨qs, q, rfl, -, hqs⟩ := h
  intro e he
  rw [List.map_append, List.map_singleton, List.dropLast_concat] at he
  obtain ⟨p, hp, rfl⟩ := List.mem_map.mp he
  exact hqs p hp

theorem lastOnlyFinal_of_unmarked {M : Machine} {ps : List (Push M)}
    (h : ∀ p ∈ ps, p.entry.xlast = false) : LastOnlyFinal (ps.map fun p => p.entry) := by
  intro e he
  obtain ⟨p, hp, rfl⟩ := List.mem_map.mp (List.dropLast_subset _ he)
  exact h p hp

/-! ## The driver -/

/-- How full the FIFO is. -/
def cardFill (s₀ : HostPath F) (env : Surroundings) (s : CardState) : ℕ :=
  min (fill (s.path F s₀ env s.now)) 256

/-- Where nothing is pushed the FIFO can only drain. -/
theorem fill_later (s : CardState) {u t : ℕ} (hu : s.now ≤ u) (hut : u ≤ t) :
    fill (s.path F s₀ env t) ≤ fill (s.path F s₀ env u) := by
  have hle := @fill_add_pushed_le _ s₀ (s.wave env) _ _ hut
  rw [pushed_quiet hu, pushed_quiet (Nat.le_trans hu hut)] at hle
  exact Nat.le_of_add_le_add_right hle

theorem cardFill_pause (s : CardState) :
    cardFill s₀ env (s.pause env) ≤ min (fill (s.path F s₀ env (s.due env))) 256 := by
  have hpath : (s.pause env).path F s₀ env (s.pause env).now = s.path F s₀ env (s.due env + 1) := by
    unfold CardState.path
    rw [wave_pause]
    rfl
  have hle := @fill_later F s₀ env s _ _ (now_le_due env s) (Nat.le_succ _)
  rw [cardFill, hpath]
  exact Nat.le_min.mpr ⟨Nat.le_trans (Nat.min_le_left _ _) hle, Nat.min_le_right _ _⟩

theorem cardFill_grows {s s' : CardState} (hg : Grows env s s' 0) :
    cardFill s₀ env s' ≤ cardFill s₀ env s := by
  have hle := @fill_add_pushed_le _ s₀ (s'.wave env) _ _ hg.le
  rw [hg.count, hg.pushed_eq (Nat.le_refl _)] at hle
  have hpath : s'.path F s₀ env s.now = s.path F s₀ env s.now := hg.path_eq (Nat.le_refl _)
  have hle' : fill (s'.path F s₀ env s'.now) ≤ fill (s.path F s₀ env s.now) :=
    hpath ▸ Nat.le_of_add_le_add_right hle
  exact Nat.le_min.mpr ⟨Nat.le_trans (Nat.min_le_left _ _) hle', Nat.min_le_right _ _⟩

theorem cardFill_read (s : (loaderCard F s₀ env).State) :
    ∃ f, cardFill s₀ env ((loaderCard F s₀ env).busRead s regFifoCsr).2 ≤ f ∧ f ≤ 256 ∧
      (((loaderCard F s₀ env).busRead s regFifoCsr).1.getLsbD fifoCsrFullBit = true ↔ f = 256) := by
  refine ⟨min (fill (CardState.path F s₀ env s (CardState.due env s))) 256, cardFill_pause s,
    Nat.min_le_right _ _, ?_⟩
  have hbit : ((loaderCard F s₀ env).busRead s regFifoCsr).1.getLsbD fifoCsrFullBit =
      F.wrFull (CardState.path F s₀ env s (CardState.due env s)).fifo := fifoCsr_full _
  rw [hbit, F.wrFull_eq, decide_eq_true_eq, fill]
  omega

theorem cardFill_write (s : (loaderCard F s₀ env).State) (v : Word) {a : Word} (ha : a ≠ regFifoR1) :
    cardFill s₀ env ((loaderCard F s₀ env).busWrite s v a) ≤ cardFill s₀ env s :=
  cardFill_grows (grows_write (⟨s, []⟩ : Proc (loaderCard F s₀ env)) v ha)

/-- The FIFO of the card as the host programs find it. -/
def cardFifo (F : FifoSync Stamped 256) (s₀ : HostPath F) (env : Surroundings) :
    LoaderFifo (loaderCard F s₀ env) where
  fill := cardFill s₀ env
  full_read := cardFill_read
  fill_write s v _ ha := cardFill_write s v ha

/-- After `svec_fpga_write_init` a session feeds the FIFO with the bytes taken in, the final entry
marked, and ends. -/
theorem session_feeding {M : Machine} (L : LoaderFifo M) (h : Proc M) (bufs : List Buffer) (rounds : ℕ)
    (info : FpgaImageInfo) (hok : (session h bufs rounds info).NeverBusy) :
    ∃ g es, Feeding (svecFpgaWriteInit h).2.2 g es ∧ Ends g (session h bufs rounds info).after ∧
      LastOnlyFinal es ∧
      es.flatMap (FifoEntry.bits true) = (bufs.flatMap taken).flatMap byteBits := by
  obtain ⟨hok, hok'⟩ := hok
  obtain ⟨⟨ps, hps, hfit, hbytes⟩, -⟩ := writeAll_feeds L bufs (svecFpgaWriteInit h).2.1
    (svecFpgaWriteInit h).2.2 hok
  have hcleared : pending (svecFpgaWriteInit h).2.1 = [] := pending_cleared
  rw [hcleared, List.nil_append] at hbytes
  obtain ⟨es, hes⟩ := feeding_writeAll bufs (svecFpgaWriteInit h).2.1 (svecFpgaWriteInit h).2.2
  have hes' := hes.entries_eq hps
  generalize hw : writeAll (svecFpgaWriteInit h).2.1 (svecFpgaWriteInit h).2.2 bufs = w at *
  have hafter : (session h bufs rounds info).after =
      (SvecCore.svecFpgaWriteStop rounds info w.2.1 w.2.2).2.2 := by rw [← hw]; rfl
  have hcomplete : (session h bufs rounds info).complete =
      (SvecCore.svecFpgaWriteStop rounds info w.2.1 w.2.2).1 := by rw [← hw]; rfl
  obtain ⟨fs, hfs⟩ := feeding_writeWord w.2.2 w.2.1.bitstreamLastWord
    (w.2.1.bitstreamLastWordSize.toNat : Int) true
  obtain ⟨g, hg, hends⟩ := writeStop_ends rounds info w.2.1 w.2.2
  have hall : Feeding (svecFpgaWriteInit h).2.2 g (es ++ fs) := by
    have := (hes.trans hfs).trans hg
    rwa [List.append_nil] at this
  refine ⟨g, es ++ fs, hall, hafter ▸ hends, ?_⟩
  rcases writeWord_cases L w.2.2 w.2.1 true with ⟨hno, hr⟩ | ⟨hbusy, -⟩ | ⟨hold, -, p, hp, -, hlast, hpbytes⟩
  · have hnone : fs = [] := by
      rw [hr] at hfs
      exact hfs.entries_eq (Runs.refl _)
    rw [hnone, List.append_nil, hes', bits_of_pushed]
    rw [pending, if_neg hno, List.append_nil] at hbytes
    exact ⟨lastOnlyFinal_of_unmarked fun p hp => (hfit p hp).2, by rw [hbytes]⟩
  · exact absurd (svecFpgaWriteStop_ebusy rounds info hbusy) (hcomplete ▸ hok')
  · have hone : fs = [p.entry] := hfs.entries_eq hp
    have hjoin : es ++ fs = (ps ++ [p]).map fun p => p.entry := by
      rw [hone, hes', List.map_append]
      rfl
    rw [hjoin, bits_of_pushed, pushedBytes_append, ← hbytes, ← hpbytes]
    refine ⟨lastOnlyFinal_of_marksFinal ⟨ps, p, rfl, hlast, fun q hq => (hfit q hq).2⟩, ?_⟩
    simp [pushedBytes]

/-- The card when `svec_fpga_write_init` is about to write SWRST. -/
def unlocked (h : Proc (loaderCard F s₀ env)) : CardState :=
  (svecFpgaLoaderIsActive (svecFpgaReset h).2).2.st

/-- The identification register says "SVEC". -/
theorem loader_is_active (g : Proc (loaderCard F s₀ env)) : (svecFpgaLoaderIsActive g).1 = true := by
  have hread : ((g.read regCsr).2.read regIdr).1 = 0x53564543#32 := rfl
  unfold svecFpgaLoaderIsActive
  simp only [hread]
  decide

theorem svecFpgaWriteInit_st (h : Proc (loaderCard F s₀ env)) :
    (svecFpgaWriteInit h).2.2.st = startState env (unlocked h) := by
  have hreset : (svecFpgaReset h).1 = 0 := rfl
  have hid : (svecFpgaLoaderIsActive (svecFpgaReset h).2).1 = true := loader_is_active _
  show (svecFpgaWriteStart h).2.st = _
  unfold svecFpgaWriteStart
  simp only [hreset, hid, ne_eq, not_true_eq_false, if_false, Bool.not_true, Bool.false_eq_true]
  rw [write_csr]
  have hsw : ((svecFpgaLoaderIsActive (svecFpgaReset h).2).2.write csrSwrst regCsr).st =
      swrstState env (unlocked h) := write_csr _ _
  rw [hsw]
  rfl

/-- The driver: in a session in which no word gives up on a full FIFO, on a card whose FIFO has drained
before START, the bytes of all chunks come out at the pins in order, whatever the pace of host and
card. -/
theorem driver_clocks_out (F : FifoSync Stamped 256) (s₀ : HostPath F) (env : Surroundings)
    (h : Proc (loaderCard F s₀ env)) (bufs : List Buffer) (rounds : ℕ) (info : FpgaImageInfo)
    (hsize : ∀ b ∈ bufs, b.bytes.length ≤ 2 ^ 31) (hok : (session h bufs rounds info).NeverBusy)
    (hdrained : Drained s₀ env (unlocked h)) :
    ComesOut s₀ (CardState.wave env (session h bufs rounds info).after.st)
      (startCycle env (unlocked h) + 1) ((bufs.flatMap Buffer.bytes).flatMap byteBits) := by
  obtain ⟨g, es, hfeeding, hends, hlast, hbits⟩ :=
    session_feeding (cardFifo F s₀ env) h bufs rounds info hok
  have hup := hfeeding.uploads
  rw [svecFpgaWriteInit_st] at hup
  rw [← (SvecFlasher.flatMap_taken_eq_iff bufs).mpr hsize, ← hbits]
  exact comesOut_of_uploads hdrained hup (winds_of_ends hends) hlast

/-- An idle loader with an empty FIFO. -/
def emptyCard : HostPath (listFifo Stamped 256 default) := ⟨default, ([], default)⟩

/-- Every access takes a cycle, and DONE stays low. -/
def promptHost : Surroundings where
  regs := ⟨false, 0#6, 0#32⟩
  wait _ := 0
  initBSynced _ := true
  doneSynced _ := false
  jiffies _ := 0#64
  usecsToJiffies us := us.setWidth 64

/-- Two chunks of five bytes together. -/
theorem driver_clocks_out_five :
    let h := begin (listFifo Stamped 256 default) emptyCard promptHost
    let bufs : List Buffer := [⟨[1#8, 2#8, 3#8], fun _ => 0xaa#8⟩, ⟨[4#8, 5#8], fun _ => 0xaa#8⟩]
    ComesOut emptyCard (CardState.wave promptHost (session h bufs 1 ⟨0#32⟩).after.st)
      (startCycle promptHost (unlocked h) + 1) ([1#8, 2#8, 3#8, 4#8, 5#8].flatMap byteBits) :=
  driver_clocks_out (listFifo Stamped 256 default) emptyCard promptHost
    (begin (listFifo Stamped 256 default) emptyCard promptHost)
    [⟨[1#8, 2#8, 3#8], fun _ => 0xaa#8⟩, ⟨[4#8, 5#8], fun _ => 0xaa#8⟩] 1 ⟨0#32⟩ (by decide)
    ⟨by decide +kernel, by decide +kernel⟩ (by unfold Drained; decide +kernel)

/-! ## The flasher -/

theorem startAfpga_st (h : Proc (loaderCard F s₀ env)) : (startAfpga h).st = startState env h.st := by
  unfold startAfpga
  rw [csrWritel_eq_write, csrWritel_eq_write, write_csr]
  have hsw : (h.write csrSwrst regCsr).st = swrstState env h.st := write_csr _ _
  rw [hsw]
  rfl

/-- The flasher: once its FIFO loop has ended the bytes of the file come out in the same way. -/
theorem flasher_clocks_out (F : FifoSync Stamped 256) (s₀ : HostPath F) (env : Surroundings)
    (h : Proc (loaderCard F s₀ env)) (buf : Buffer) (polls rounds : ℕ)
    (hend : (fifoLoop buf polls (startAfpga h) 0).1 = true) (hdrained : Drained s₀ env h.st) :
    ComesOut s₀ (CardState.wave env (programAfpga polls rounds h buf).2.st)
      (startCycle env h.st + 1) (buf.bytes.flatMap byteBits) := by
  obtain ⟨es, hes⟩ := feeding_fifoLoop buf polls (startAfpga h) 0
  obtain ⟨g, hg, hends⟩ := statusLoop_ends rounds (fifoLoop buf polls (startAfpga h) 0).2
  have hafter : (programAfpga polls rounds h buf).2 =
      (SvecFlasher.statusLoop rounds (fifoLoop buf polls (startAfpga h) 0).2).2 := by
    unfold programAfpga
    simp only [hend, if_true]
  have hup := (hes.trans hg).uploads
  rw [startAfpga_st, List.append_nil] at hup
  obtain ⟨ps, hps, hbytes, hmarks, hnone⟩ :=
    fifoLoop_runs buf polls (startAfpga h) 0 (.inl (Nat.dvd_zero 4)) hend
  have hes' := hes.entries_eq hps
  have hlast : LastOnlyFinal es := by
    rw [hes']
    by_cases hmod : buf.bytes.length % 4 = 0
    · exact lastOnlyFinal_of_unmarked (hnone (Nat.dvd_zero 4) hmod)
    · exact lastOnlyFinal_of_marksFinal (hmarks (by omega) hmod)
  have hbits : es.flatMap (FifoEntry.bits true) = buf.bytes.flatMap byteBits := by
    rw [hes', bits_of_pushed, hbytes]
    rfl
  rw [hafter, ← hbits]
  exact comesOut_of_uploads hdrained hup (winds_of_ends hends) hlast

/-- A file of five bytes. -/
theorem flasher_clocks_out_five :
    let h := begin (listFifo Stamped 256 default) emptyCard promptHost
    let buf : Buffer := ⟨[1#8, 2#8, 3#8, 4#8, 5#8], fun _ => 0xaa#8⟩
    ComesOut emptyCard (CardState.wave promptHost (programAfpga 2 1 h buf).2.st)
      (startCycle promptHost h.st + 1) ([1#8, 2#8, 3#8, 4#8, 5#8].flatMap byteBits) :=
  flasher_clocks_out (listFifo Stamped 256 default) emptyCard promptHost
    (begin (listFifo Stamped 256 default) emptyCard promptHost)
    ⟨[1#8, 2#8, 3#8, 4#8, 5#8], fun _ => 0xaa#8⟩ 2 1 (by decide +kernel)
    (by unfold Drained; decide +kernel)

end Svec.Host.ClockedOut
