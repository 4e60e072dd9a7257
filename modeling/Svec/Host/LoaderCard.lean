/-
  Host/LoaderCard.lean --- the host programs on the loader and its FIFO.

  A machine on which a host program runs against the loader, cycle by cycle.  The
  program alone decides what is accessed and in which order; how many cycles pass
  before each access is arbitrary, and so are the pins.  The state of the machine is
  the waveform that the accesses have made so far, and the card at any cycle is the
  run of the loader and the FIFO on it.
-/
import Svec.Host.SvecFlasher
import Svec.Hdl.XloaderWb
import Svec.Loader.Stuck

set_option autoImplicit false

namespace Svec.Host.LoaderCard

open Svec.Data Svec.Sync Svec.Hdl Svec.Host Svec.Loader.Session Svec.Loader.Stuck

/-! ## The machine -/

/-- The registers that keep what was written. -/
structure CardRegs where
  csrMsbf : Bool
  csrClkdiv : BitVec 6
  fifoR0 : Word

/-- What the host programs do not decide: what the registers hold at first, the number of
cycles that pass before an access begun in a cycle, the two pins, and the clock of the host. -/
structure Surroundings where
  regs : CardRegs
  wait : ℕ → ℕ
  initBSynced : ℕ → Bool
  doneSynced : ℕ → Bool
  jiffies : ℕ → BitVec 64
  usecsToJiffies : BitVec 32 → BitVec 64

/-- The cycle that is next, the inputs of the cycles before it, the registers, and the cycles
in which a read of `FIFO_CSR` returned FULL. -/
structure CardState where
  now : ℕ
  past : ℕ → HostIn
  regs : CardRegs
  refused : List ℕ

/-- The register block in a cycle without an access. -/
def quiet (env : Surroundings) (r : CardRegs) (t : ℕ) : HostIn where
  rstN := true
  csrSwrst := false
  csrStart := false
  csrMsbf := r.csrMsbf
  csrExit := false
  csrClkdiv := r.csrClkdiv
  fifoClearBus := false
  fifoPush := none
  initBSynced := env.initBSynced t
  doneSynced := env.doneSynced t

/-- The inputs of every cycle, if the host does nothing more. -/
def CardState.wave (env : Surroundings) (s : CardState) (t : ℕ) : HostIn :=
  if t < s.now then s.past t else quiet env s.regs t

/-- The cycle of the access that is begun now. -/
def CardState.due (env : Surroundings) (s : CardState) : ℕ := s.now + env.wait s.now

/-- An access: the inputs of its cycle, and the registers after it. -/
def CardState.access (env : Surroundings) (s : CardState) (i : HostIn) (r : CardRegs) : CardState where
  now := s.due env + 1
  past t := if t < s.due env then s.wave env t else i
  regs := r
  refused := s.refused

/-- A cycle in which nothing is written. -/
def CardState.pause (env : Surroundings) (s : CardState) : CardState :=
  s.access env (quiet env s.regs (s.due env)) s.regs

/-- The inputs of the cycle in which `v` is written to CSR. -/
def csrInputs (i : HostIn) (v : Word) : HostIn :=
  { i with
    csrStart := v.getLsbD 0, csrSwrst := v.getLsbD 5, csrExit := v.getLsbD 6
    csrMsbf := v.getLsbD 4, csrClkdiv := v.extractLsb' 8 6 }

/-- `FIFO_CSR`. -/
def fifoCsr {F : FifoSync Stamped 256} (p : HostPath F) : Word :=
  XloaderWb.field 0 (BitVec.ofNat 8 (F.contents p.fifo).length) |||
    XloaderWb.flag 16 (F.wrFull p.fifo) ||| XloaderWb.flag 17 (F.rdEmpty p.fifo)

/-- `CSR`. -/
def csr {F : FifoSync Stamped 256} (r : CardRegs) (p : HostPath F) : Word :=
  XloaderWb.flag 1 p.ldr.csrDone ||| XloaderWb.flag 2 p.ldr.csrError |||
    XloaderWb.flag 3 (XilinxLoader.csrBusy p.ldr) ||| XloaderWb.flag 4 r.csrMsbf |||
    XloaderWb.field 8 r.csrClkdiv ||| XloaderWb.field 14 3#8

section Machine

variable (F : FifoSync Stamped 256) (s₀ : HostPath F) (env : Surroundings)

/-- The loader and the FIFO in a cycle. -/
def CardState.path (s : CardState) (t : ℕ) : HostPath F := trace s₀ (s.wave env) t

/-- A read of a loader register. -/
def busRead (s : CardState) (a : Word) : Word × CardState :=
  let p := s.path F s₀ env (s.due env)
  (if a = regFifoCsr then fifoCsr p
    else if a = regCsr then csr s.regs p
    else if a = regIdr then 0x53564543#32
    else 0#32,
   { s.pause env with
     refused := if a = regFifoCsr ∧ F.wrFull p.fifo = true then s.refused ++ [s.due env] else s.refused })

/-- A write of a loader register. -/
def busWrite (s : CardState) (v a : Word) : CardState :=
  let i := quiet env s.regs (s.due env)
  if a = regCsr then
    s.access env (csrInputs i v)
      { s.regs with csrMsbf := v.getLsbD 4, csrClkdiv := v.extractLsb' 8 6 }
  else if a = regFifoR0 then s.access env i { s.regs with fifoR0 := v }
  else if a = regFifoR1 then s.access env { i with fifoPush := some (fifoEntry s.regs.fifoR0 v) } s.regs
  else if a = regFifoCsr then s.access env { i with fifoClearBus := v.getLsbD 18 } s.regs
  else s.pause env

/-- The card as the host programs reach it. -/
def loaderCard : Machine where
  State := CardState
  busRead := busRead F s₀ env
  busWrite := busWrite env
  mdelay s _ := s.pause env
  usleepRange s _ _ := s.pause env
  getJiffies64 s := (env.jiffies s.now, s)
  usecsToJiffies := env.usecsToJiffies

/-- A host program before its first access. -/
def begin : Proc (loaderCard F s₀ env) := ⟨⟨0, fun _ => default, env.regs, []⟩, []⟩

end Machine

/-! ## One access -/

section Access

variable {env : Surroundings} {s : CardState} {i : HostIn} {r : CardRegs} {t : ℕ}

theorem wave_of_now_le (h : s.now ≤ t) : s.wave env t = quiet env s.regs t :=
  if_neg (Nat.not_lt.mpr h)

theorem now_le_due (env : Surroundings) (s : CardState) : s.now ≤ s.due env := Nat.le_add_right _ _

theorem wave_access_of_lt (h : t < s.due env) :
    (s.access env i r).wave env t = s.wave env t := by
  have hlt : t < s.due env + 1 := Nat.lt_succ_of_lt h
  simp only [CardState.wave, CardState.access, if_pos hlt, if_pos h]

theorem wave_access_due : (s.access env i r).wave env (s.due env) = i := by
  simp [CardState.wave, CardState.access]

theorem path_congr {F : FifoSync Stamped 256} {s₀ : HostPath F} {s' : CardState}
    (h : ∀ k, k < t → s'.wave env k = s.wave env k) : s'.path F s₀ env t = s.path F s₀ env t :=
  run_congr fun k hk => by rw [h k hk]

theorem pushed_quiet (h : s.now ≤ t) : pushed (s.wave env) t = pushed (s.wave env) s.now := by
  induction h with
  | refl => rfl
  | @step t h ih => simp [pushed, pushOf, wave_of_now_le h, quiet, ih]

end Access

/-! ## A stretch of a program -/

/-- From `s` to `s'` a program pushes `n` entries; what was before stays as it was. -/
structure Grows (env : Surroundings) (s s' : CardState) (n : ℕ) : Prop where
  le : s.now ≤ s'.now
  same : ∀ t, t < s.now → s'.wave env t = s.wave env t
  count : pushed (s'.wave env) s'.now = pushed (s.wave env) s.now + n

section Grows

variable {env : Surroundings} {s s' s'' : CardState} {m n : ℕ}

theorem Grows.refl (env : Surroundings) (s : CardState) : Grows env s s 0 :=
  ⟨Nat.le_refl _, fun _ _ => rfl, rfl⟩

theorem Grows.trans (h : Grows env s s' m) (h' : Grows env s' s'' n) : Grows env s s'' (m + n) := by
  refine ⟨Nat.le_trans h.le h'.le, fun t ht => ?_, ?_⟩
  · rw [h'.same t (Nat.lt_of_lt_of_le ht h.le), h.same t ht]
  · rw [h'.count, h.count, Nat.add_assoc]

theorem grows_access (env : Surroundings) (s : CardState) (i : HostIn) (r : CardRegs) :
    Grows env s (s.access env i r) (pushOf i) := by
  have hdue := now_le_due env s
  refine ⟨Nat.le_succ_of_le hdue, fun t ht => wave_access_of_lt (Nat.lt_of_lt_of_le ht hdue), ?_⟩
  show pushed _ (s.due env + 1) = _
  rw [pushed, wave_access_due, pushed_congr fun k hk => wave_access_of_lt hk, pushed_quiet hdue]

theorem Grows.pushed_eq (h : Grows env s s' n) {t : ℕ} (ht : t ≤ s.now) :
    pushed (s'.wave env) t = pushed (s.wave env) t :=
  pushed_congr fun k hk => h.same k (Nat.lt_of_lt_of_le hk ht)

/-- From then on the count only grows. -/
theorem Grows.le_pushed (h : Grows env s s' n) {t : ℕ} (ht : s.now ≤ t) :
    pushed (s.wave env) s.now ≤ pushed (s'.wave env) t := by
  rw [← h.pushed_eq (Nat.le_refl _)]
  exact pushed_mono (s'.wave env) ht

/-- A program that pushes nothing leaves the count as it is. -/
theorem Grows.pushed_const (h : Grows env s s' 0) {t : ℕ} (hlow : s.now ≤ t) (hhigh : t ≤ s'.now) :
    pushed (s'.wave env) t = pushed (s.wave env) s.now := by
  have hle := pushed_mono (s'.wave env) hhigh
  rw [h.count] at hle
  exact Nat.le_antisymm hle (h.le_pushed hlow)

theorem Grows.path_eq {F : FifoSync Stamped 256} {s₀ : HostPath F} (h : Grows env s s' n) {t : ℕ}
    (ht : t ≤ s.now) : s'.path F s₀ env t = s.path F s₀ env t :=
  path_congr fun k hk => h.same k (Nat.lt_of_lt_of_le hk ht)

end Grows

section Programs

variable {F : FifoSync Stamped 256} {s₀ : HostPath F} {env : Surroundings}

theorem grows_read (h : Proc (loaderCard F s₀ env)) (a : Word) :
    Grows env h.st (h.read a).2.st 0 :=
  have base := grows_access env h.st (quiet env h.st.regs (h.st.due env)) h.st.regs
  ⟨base.le, base.same, base.count⟩

theorem grows_write (h : Proc (loaderCard F s₀ env)) (v : Word) {a : Word} (ha : a ≠ regFifoR1) :
    Grows env h.st (h.write v a).st 0 := by
  show Grows env h.st (busWrite env h.st v a) 0
  unfold busWrite
  dsimp only
  rw [if_neg ha]
  split
  · exact grows_access env h.st _ _
  split
  · exact grows_access env h.st _ _
  split
  · exact grows_access env h.st _ _
  · exact grows_access env h.st _ _

theorem write_csr (h : Proc (loaderCard F s₀ env)) (v : Word) : (h.write v regCsr).st =
    CardState.access env h.st (csrInputs (quiet env (CardState.regs h.st) (CardState.due env h.st)) v)
      { CardState.regs h.st with csrMsbf := v.getLsbD 4, csrClkdiv := v.extractLsb' 8 6 } := by
  show busWrite env h.st v regCsr = _
  unfold busWrite
  exact if_pos rfl

theorem grows_push (h : Proc (loaderCard F s₀ env)) (v : Word) :
    Grows env h.st (h.write v regFifoR1).st 1 :=
  grows_access env h.st { quiet env h.st.regs (h.st.due env) with
    fifoPush := some (fifoEntry h.st.regs.fifoR0 v) } h.st.regs

theorem grows_mdelay (h : Proc (loaderCard F s₀ env)) (ms : ℕ) : Grows env h.st (h.mdelay ms).st 0 :=
  grows_access env h.st _ _

theorem grows_usleepRange (h : Proc (loaderCard F s₀ env)) (lo hi : ℕ) :
    Grows env h.st (h.usleepRange lo hi).st 0 :=
  grows_access env h.st _ _

/-! ## Refused reads -/

/-- Whenever a read of `FIFO_CSR` returned FULL, the FIFO was full and the host still had one
of its `words` entries to push. -/
def Refusals (s₀ : HostPath F) (env : Surroundings) (words : ℕ) (s : CardState) : Prop :=
  ∀ p ∈ s.refused, p < s.now ∧ pushed (s.wave env) p < words ∧
    F.wrFull (s.path F s₀ env p).fifo = true

theorem Refusals.grows {words n : ℕ} {s s' : CardState} (h : Refusals s₀ env words s)
    (hg : Grows env s s' n) (hsame : s'.refused = s.refused) : Refusals s₀ env words s' := by
  intro p hp
  obtain ⟨hlt, hcount, hfull⟩ := h p (hsame ▸ hp)
  have hle := Nat.le_of_lt hlt
  exact ⟨Nat.lt_of_lt_of_le hlt hg.le, hg.pushed_eq hle ▸ hcount, hg.path_eq hle ▸ hfull⟩

/-- A read of `FIFO_CSR`, where the host still has an entry to push. -/
theorem Refusals.read {words : ℕ} {h : Proc (loaderCard F s₀ env)}
    (hr : Refusals s₀ env words h.st) (hmore : pushed (h.st.wave env) h.st.now < words) :
    Refusals s₀ env words (h.read regFifoCsr).2.st := by
  have hg := grows_access env h.st (quiet env h.st.regs (h.st.due env)) h.st.regs
  intro p hp
  by_cases hfull : F.wrFull (h.st.path F s₀ env (h.st.due env)).fifo = true
  · have hrefused : (h.read regFifoCsr).2.st.refused = h.st.refused ++ [h.st.due env] :=
      if_pos ⟨rfl, hfull⟩
    rcases List.mem_append.mp (hrefused ▸ hp) with hp | hp
    · exact hr.grows hg rfl p hp
    · obtain rfl := List.mem_singleton.mp hp
      have hbefore : ∀ k, k < h.st.due env →
          (h.read regFifoCsr).2.st.wave env k = h.st.wave env k :=
        fun k hk => wave_access_of_lt hk
      refine ⟨Nat.lt_succ_self _, ?_, ?_⟩
      · rw [pushed_congr hbefore, pushed_quiet (now_le_due env h.st)]
        exact hmore
      · rw [path_congr hbefore]
        exact hfull
  · have hrefused : (h.read regFifoCsr).2.st.refused = h.st.refused :=
      if_neg fun hc => hfull hc.2
    exact hr.grows hg rfl p (hrefused ▸ hp)

theorem write_refused (h : Proc (loaderCard F s₀ env)) (v a : Word) :
    (h.write v a).st.refused = h.st.refused := by
  show (busWrite env h.st v a).refused = _
  unfold busWrite CardState.pause CardState.access
  dsimp only
  (repeat' split) <;> rfl

theorem Refusals.write {words : ℕ} {h : Proc (loaderCard F s₀ env)}
    (hr : Refusals s₀ env words h.st) (v a : Word) : Refusals s₀ env words (h.write v a).st := by
  by_cases ha : a = regFifoR1
  · subst ha
    exact hr.grows (grows_push h v) (write_refused h v regFifoR1)
  · exact hr.grows (grows_write h v ha) (write_refused h v a)

/-- FULL, as it is read. -/
theorem fifoCsr_full (p : HostPath F) : (fifoCsr p).getLsbD fifoCsrFullBit = F.wrFull p.fifo := by
  unfold fifoCsr
  generalize BitVec.ofNat 8 (F.contents p.fifo).length = n
  cases F.wrFull p.fifo <;> cases F.rdEmpty p.fifo <;>
    simp [XloaderWb.flag, XloaderWb.field, fifoCsrFullBit]

end Programs

/-! ## A stretch that leaves the loader alone -/

/-- No reset, no SWRST, no EXIT and no CLEAR_BUS. -/
def Gentle (i : HostIn) : Prop :=
  i.rstN = true ∧ i.csrSwrst = false ∧ i.csrExit = false ∧ i.fifoClearBus = false

/-- From `s` to `s'` a program only reads and pushes, and pushes only where there is room. -/
structure Supplies {F : FifoSync Stamped 256} (s₀ : HostPath F) (env : Surroundings)
    (s s' : CardState) (n : ℕ) : Prop extends Grows env s s' n where
  gentle : ∀ t, s.now ≤ t → t < s'.now → Gentle (s'.wave env t)
  room : ∀ t, s.now ≤ t → t < s'.now → (s'.wave env t).fifoPush.isSome = true →
    F.wrFull (s'.path F s₀ env t).fifo = false

section Supplies

variable {F : FifoSync Stamped 256} {s₀ : HostPath F} {env : Surroundings}
  {s s' s'' : CardState} {m n : ℕ}

theorem Supplies.refl (s₀ : HostPath F) (env : Surroundings) (s : CardState) : Supplies s₀ env s s 0 :=
  ⟨Grows.refl env s, fun _ h h' => absurd h' (Nat.not_lt.mpr h), fun _ h h' =>
    absurd h' (Nat.not_lt.mpr h)⟩

theorem Supplies.trans (h : Supplies s₀ env s s' m) (h' : Supplies s₀ env s' s'' n) :
    Supplies s₀ env s s'' (m + n) := by
  refine ⟨h.toGrows.trans h'.toGrows, fun t ht ht' => ?_, fun t ht ht' hp => ?_⟩
  · by_cases hmid : t < s'.now
    · rw [h'.same t hmid]
      exact h.gentle t ht hmid
    · exact h'.gentle t (Nat.not_lt.mp hmid) ht'
  · by_cases hmid : t < s'.now
    · rw [h'.same t hmid] at hp
      rw [h'.path_eq (Nat.le_of_lt hmid)]
      exact h.room t ht hmid hp
    · exact h'.room t (Nat.not_lt.mp hmid) ht' hp

theorem supplies_access {i : HostIn} (r : CardRegs) (hi : Gentle i)
    (hroom : i.fifoPush.isSome = true → F.wrFull (s.path F s₀ env (s.due env)).fifo = false) :
    Supplies s₀ env s (s.access env i r) (pushOf i) := by
  refine ⟨grows_access env s i r, fun t ht ht' => ?_, fun t ht ht' hp => ?_⟩
  · rcases Nat.lt_succ_iff_lt_or_eq.mp ht' with hlt | rfl
    · rw [wave_access_of_lt hlt, wave_of_now_le ht]
      exact ⟨rfl, rfl, rfl, rfl⟩
    · rw [wave_access_due]
      exact hi
  · rcases Nat.lt_succ_iff_lt_or_eq.mp ht' with hlt | rfl
    · rw [wave_access_of_lt hlt, wave_of_now_le ht] at hp
      exact absurd hp (by simp [quiet])
    · rw [wave_access_due] at hp
      rw [path_congr fun k hk => wave_access_of_lt hk]
      exact hroom hp

theorem gentle_quiet (env : Surroundings) (r : CardRegs) (t : ℕ) : Gentle (quiet env r t) :=
  ⟨rfl, rfl, rfl, rfl⟩

theorem supplies_read (h : Proc (loaderCard F s₀ env)) (a : Word) :
    Supplies s₀ env h.st (h.read a).2.st 0 :=
  have base : Supplies s₀ env h.st (h.st.pause env) 0 :=
    supplies_access h.st.regs (gentle_quiet env _ _) fun hp => absurd hp (by simp [quiet])
  ⟨grows_read h a, base.gentle, base.room⟩

theorem supplies_fifoR0 (h : Proc (loaderCard F s₀ env)) (v : Word) :
    Supplies s₀ env h.st (h.write v regFifoR0).st 0 :=
  supplies_access { h.st.regs with fifoR0 := v } (gentle_quiet env _ _)
    fun hp => absurd hp (by simp [quiet])

/-- A push after `FULL` was read as 0: nothing was pushed in between, so there is room. -/
theorem supplies_entry (h : Proc (loaderCard F s₀ env)) (r0 r1 : Word)
    (hfree : (h.read regFifoCsr).1.getLsbD fifoCsrFullBit = false) :
    Supplies s₀ env h.st (((h.read regFifoCsr).2.write r0 regFifoR0).write r1 regFifoR1).st 1 := by
  have hpoll := supplies_read h regFifoCsr
  generalize hg : (h.read regFifoCsr).2 = g at hpoll ⊢
  have hnow : g.st.now = h.st.due env + 1 := by rw [← hg]; rfl
  have hwrite := hpoll.trans (supplies_fifoR0 g r0)
  generalize hk : g.write r0 regFifoR0 = k at hwrite ⊢
  have hroom : F.wrFull (k.st.path F s₀ env (k.st.due env)).fifo = false := by
    have hle : h.st.due env ≤ k.st.due env := by
      have := (supplies_fifoR0 g r0).le
      have := now_le_due env k.st
      rw [hk] at *
      omega
    have hbefore : ∀ j, j < h.st.due env → k.st.wave env j = h.st.wave env j := by
      intro j hj
      have hgrow := supplies_fifoR0 g r0
      rw [hk] at hgrow
      rw [hgrow.same j (by omega), ← hg]
      exact wave_access_of_lt hj
    have hfull : F.wrFull (h.st.path F s₀ env (h.st.due env)).fifo = false := by
      rw [← fifoCsr_full]
      exact hfree
    have hlt : fill (k.st.path F s₀ env (h.st.due env)) < 256 := by
      rw [path_congr hbefore]
      exact Nat.not_le.mp fun hge => absurd (wrFull_iff.mpr hge) (by simp [hfull])
    have hgrow := @fill_add_pushed_le _ s₀ (k.st.wave env) _ _ hle
    have hcount : pushed (k.st.wave env) (k.st.due env) = pushed (k.st.wave env) (h.st.due env) := by
      rw [pushed_quiet (now_le_due env k.st), hwrite.count, pushed_congr hbefore,
        pushed_quiet (now_le_due env h.st)]
      rfl
    have hlt' : fill (k.st.path F s₀ env (k.st.due env)) < 256 := by
      unfold CardState.path at hlt ⊢
      omega
    rw [F.wrFull_eq]
    exact decide_eq_false (Nat.not_le.mpr hlt')
  have hpush : Supplies s₀ env k.st (k.write r1 regFifoR1).st 1 :=
    supplies_access k.st.regs (i := { quiet env k.st.regs (k.st.due env) with
      fifoPush := some (fifoEntry k.st.regs.fifoR0 r1) }) ⟨rfl, rfl, rfl, rfl⟩ fun _ => hroom
  exact hwrite.trans hpush

end Supplies

end Svec.Host.LoaderCard
