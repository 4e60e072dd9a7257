/-
  Carrier/Map.lean --- the carrier's address map, as its host sees it.

  The host makes one access after the other, with pauses as it likes: it holds an
  access on the bus until it is acknowledged.  To it the carrier is what it got so
  far, the transfers that the submaps saw, and the two reset bits; an access adds one
  answer, and one transfer to the submap that it names, if it names one.
-/
import Svec.Hdl.Carrier
import Svec.Carrier.Phases
import Svec.Sync.Machine
import Svec.Prog.Script

set_option autoImplicit false

namespace Svec.Carrier

open Svec.Data Svec.Sync Svec.Hdl Svec.Hdl.SvecBaseRegs Svec.Hdl.SvecBaseRom Svec.Hdl.Carrier

/-! ## The host -/

/-- An access of the host: an address, and for a write the word. -/
structure Access where
  adr : Word
  sel : BitVec 4
  we : Bool
  dat : Word

/-- The lines of the bus during an access. -/
def Access.lines (a : Access) : WbMasterOut := ⟨true, true, a.adr, a.sel, a.we, a.dat⟩

/-- What the access names. -/
def Access.place (a : Access) : Place := decode (a.adr.extractLsb' 2 12)

/-- What an access returns, where the lines to the host give `x`. -/
def Access.reply (a : Access) (x : Word) : Option Word := if a.we then none else some x

/-- What a host does: it lets a cycle pass, with whatever on the lines, or makes an access and
goes on as the reply tells. -/
abbrev Script : Type → Type := Prog.Script WbMasterOut Access (Option Word)

/-- The host: what is still to be done, and what the accesses so far returned. -/
structure Host (α : Type) where
  script : Script α
  answers : List (Option Word)

variable {α : Type}

def Host.lines (h : Host α) : WbMasterOut :=
  match h.script with
  | .ret _ => ⟨false, false, 0#32, 0#4, false, 0#32⟩
  | .pause l _ => { l with stb := false }
  | .access a _ => a.lines

def Host.next (h : Host α) (wbI : WbMasterIn) : Host α :=
  match h.script with
  | .ret _ => h
  | .pause _ rest => { h with script := rest }
  | .access a rest => if wbI.ack then ⟨rest (a.reply wbI.dat), h.answers ++ [a.reply wbI.dat]⟩ else h

/-! ## What the host sees -/

/-- A transfer on the bus of a submap: what the block asked for, and the word on the lines to
it when the submap acknowledged. -/
structure Transfer where
  we : Bool
  adr : Word
  sel : BitVec 4
  dat : Word
  reply : Word
  deriving DecidableEq, Repr

/-- What the host got, what the submaps saw, and the global and the application reset. -/
structure View where
  answers : List (Option Word)
  transfers : Submap → List Transfer
  resets : Bool × Bool

/-- The address of an access within a submap. -/
def Access.within (a : Access) (m : Submap) : Word := ((a.adr.extractLsb' 2 m.adrBits).setWidth 32) <<< 2

/-- The lower bits of the part of an address that reaches the block. -/
theorem low_bits (x : Word) {n : ℕ} (hn : n ≤ 12) : (x.extractLsb' 2 12).setWidth n = x.extractLsb' 2 n := by
  apply BitVec.eq_of_getLsbD_eq
  intro k hk
  have hk' : k < 12 := by omega
  simp [hk, hk']

theorem adrBits_le (m : Submap) : m.adrBits ≤ 12 := by
  cases m <;> simp [Submap.adrBits]

/-- What a submap sees of an access to which it replies `x`. -/
def Access.transfer (a : Access) (x : Word) (m : Submap) : List Transfer :=
  if a.place = .submap m then [⟨a.we, a.within m, a.sel, a.dat, x⟩] else []

/-- The reset bits after an access. -/
def Access.resets (a : Access) (before : Bool × Bool) : Bool × Bool :=
  if a.we = true ∧ a.place = .csrResets then (a.dat.getLsbD 0, a.dat.getLsbD 1) else before

/-- An access to which `x` is the reply. -/
def View.access (v : View) (a : Access) (x : Word) : View where
  answers := v.answers ++ [a.reply x]
  transfers := fun m => v.transfers m ++ a.transfer x m
  resets := a.resets v.resets

theorem View.access_resets (v : View) {a : Access} (x : Word) (h : a.we = true ∧ a.place = .csrResets) :
    (v.access a x).resets = (a.dat.getLsbD 0, a.dat.getLsbD 1) := if_pos h

theorem View.access_resets_else (v : View) {a : Access} (x : Word) (h : ¬ (a.we = true ∧ a.place = .csrResets)) :
    (v.access a x).resets = v.resets := if_neg h

/-! ## The system -/

/-- The host and the carrier. -/
structure Sys (α : Type) where
  host : Host α
  card : Hdl.Carrier.Regs

/-- The inputs of the carrier: the lines of the host, no reset, and the rest from outside. -/
def Sys.inputs (s : Sys α) (e : SvecBaseWr.In) : SvecBaseWr.In :=
  { e with rstSys62m5N := true, carrierWbIn := s.host.lines }

/-- A cycle. -/
def Sys.step (d : Design) (s : Sys α) (e : SvecBaseWr.In) : Sys α where
  host := s.host.next (wbO s.card.wr.base (blockIn d s.card (s.inputs e)))
  card := Hdl.Carrier.step d s.card (s.inputs e)

section Run

variable (d : Design) (s₀ : Sys α) (env : ℕ → SvecBaseWr.In)

/-- The host in a cycle. -/
abbrev hostAt (t : ℕ) : Host α := (run (Sys.step d) s₀ env t).host

/-- The registers of the carrier in a cycle. -/
abbrev cardAt (t : ℕ) : Hdl.Carrier.Regs := (run (Sys.step d) s₀ env t).card

/-- The inputs of the register block in a cycle. -/
abbrev blockAt (t : ℕ) : SvecBaseRegs.In :=
  blockIn d (cardAt d s₀ env t) ((run (Sys.step d) s₀ env t).inputs (env t))

/-- The bus of a submap in a cycle. -/
def submapAt (m : Submap) (t : ℕ) : WbMasterOut := submapO (cardAt d s₀ env t).wr.base (blockAt d s₀ env t) m

/-- The transfer of a submap in a cycle, if there is one. -/
def transferAt (m : Submap) (t : ℕ) : List Transfer :=
  let o := submapAt d s₀ env m t
  if o.cyc && o.stb && ((blockAt d s₀ env t).submapI m).ack then
    [⟨o.we, o.adr, o.sel, o.dat, ((blockAt d s₀ env t).submapI m).dat⟩]
  else []

/-- What the host has seen before a cycle. -/
def viewAt (t : ℕ) : View where
  answers := (hostAt d s₀ env t).answers
  transfers := fun m => collect (transferAt d s₀ env m) t
  resets := ((cardAt d s₀ env t).wr.base.csrResetsGlobalReg, (cardAt d s₀ env t).wr.base.csrResetsApplReg)

/-- The word at a place that is no submap, for an access that begins at `t`. -/
def wordAt (t : ℕ) (a : Access) : Word :=
  match a.place with
  | .metadata => pMetadata d.generics d.sourceid (a.adr.extractLsb' 2 4)
  | .csrAppOffset => d.gAppOffset
  | .csrResets =>
    (BitVec.ofBool (viewAt d s₀ env t).resets.2 ++ BitVec.ofBool (viewAt d s₀ env t).resets.1).setWidth 32
  | .csrFmcPresence => (env t).fmcPresence
  | .csrUnused0 => 0#32
  | .csrDdrStatus =>
    (BitVec.ofBool (gWithDdr d.generics .ddr5 && (env t).ddrCalibDone .ddr5) ++
      BitVec.ofBool (gWithDdr d.generics .ddr4 && (env t).ddrCalibDone .ddr4)).setWidth 32
  | .csrPcbRev => (env t).pcbrevI.setWidth 32
  | .csrDdrAddr b => (regs d (cardAt d s₀ env t)).csrDdrAddr b
  | .buildinfo => pBuildinfo d.buildinfo (a.adr.extractLsb' 2 6)
  | .submap _ | .others => (env t).undefined

/-- From `t` to `u` an access is made: it is one access of the view, a place that is no submap
returns its word, and the strobe of no other submap comes up meanwhile. -/
structure Accessed (t u : ℕ) (a : Access) (x : Word) : Prop where
  view : viewAt d s₀ env u = (viewAt d s₀ env t).access a x
  word : a.we = false → (∀ m, a.place ≠ .submap m) → x = wordAt d s₀ env t a
  addr : a.we = true → ∀ b, a.place = .csrDdrAddr b → (cardAt d s₀ env u).wr.csrDdrAddr b = a.dat
  alone : ∀ k, t ≤ k → k < u → ∀ m, (submapAt d s₀ env m k).stb = true → a.place = .submap m
  soon : (∀ m, a.place ≠ .submap m) → u ≤ t + 3

end Run

/-! ## Cycle by cycle -/

section Cycle

variable {d : Design} {s₀ : Sys α} {env : ℕ → SvecBaseWr.In} {t : ℕ}

theorem base_succ (t : ℕ) : (cardAt d s₀ env (t + 1)).wr.base =
    SvecBaseRegs.step (cardAt d s₀ env t).wr.base (blockAt d s₀ env t) := rfl

theorem host_succ (t : ℕ) : hostAt d s₀ env (t + 1) =
    (hostAt d s₀ env t).next (wbO (cardAt d s₀ env t).wr.base (blockAt d s₀ env t)) := rfl

section Host

variable {a : Access} {rest : Option Word → Script α}

/-- While an access is not acknowledged the host stays. -/
theorem host_stays (hscript : (hostAt d s₀ env t).script = .access a rest)
    (hack : ackInt (cardAt d s₀ env t).wr.base (blockAt d s₀ env t) = false) :
    hostAt d s₀ env (t + 1) = hostAt d s₀ env t := by
  have hno : (wbO (cardAt d s₀ env t).wr.base (blockAt d s₀ env t)).ack = false := hack
  simp only [host_succ, Host.next, hscript, hno, Bool.false_eq_true, if_false]

/-- Then it goes on. -/
theorem host_moves (hscript : (hostAt d s₀ env t).script = .access a rest)
    (hack : ackInt (cardAt d s₀ env t).wr.base (blockAt d s₀ env t) = true) :
    hostAt d s₀ env (t + 1) = ⟨rest (a.reply (cardAt d s₀ env t).wr.base.wbDatO),
      (hostAt d s₀ env t).answers ++ [a.reply (cardAt d s₀ env t).wr.base.wbDatO]⟩ := by
  have hyes : (wbO (cardAt d s₀ env t).wr.base (blockAt d s₀ env t)).ack = true := hack
  simp only [host_succ, Host.next, hscript, hyes, if_true]
  rfl

/-- The bus during an access. -/
theorem wb_access (hscript : (hostAt d s₀ env t).script = .access a rest) :
    (blockAt d s₀ env t).wb = a.lines := by
  show (hostAt d s₀ env t).lines = a.lines
  rw [Host.lines, hscript]

end Host

/-- The strobe of a submap in a phase. -/
theorem At.strobe {p : Phase} (h : At p (cardAt d s₀ env t).wr.base) (m : Submap) :
    (submapAt d s₀ env m t).stb = decide (p = .writeBusy m ∨ p = .readBusy m) := by
  simp [submapAt, submapO, h.wt, h.rt]

/-- A submap that is not strobed sees no transfer. -/
theorem transferAt_eq_nil {m : Submap} (h : (submapAt d s₀ env m t).stb = false) :
    transferAt d s₀ env m t = [] := by
  simp [transferAt, h]

theorem resets_succ (t : ℕ) : (viewAt d s₀ env (t + 1)).resets =
    if csrResetsWreq (cardAt d s₀ env t).wr.base then
      ((cardAt d s₀ env t).wr.base.wrDatD0.getLsbD 0, (cardAt d s₀ env t).wr.base.wrDatD0.getLsbD 1)
    else (viewAt d s₀ env t).resets := by
  have hrun : ¬ (blockAt d s₀ env t).rstN = false := Bool.noConfusion
  simp only [viewAt, base_succ, SvecBaseRegs.step, if_neg hrun]
  split <;> rfl

/-- The reset bits change in the cycle in which a write of them is decoded. -/
theorem At.resets_stay {p : Phase} (h : At p (cardAt d s₀ env t).wr.base) (hp : p ≠ .writeRequested) :
    (viewAt d s₀ env (t + 1)).resets = (viewAt d s₀ env t).resets := by
  rw [resets_succ, csrResetsWreq, h.wrReqD0, decide_eq_false hp, Bool.and_false]
  rfl

/-! ### An access that goes on -/

/-- In cycle `k` of an access that began at `t` the block is in phase `p`.  The host has not
moved; the submaps have seen the transfers `l`, and the reset bits are `rs`. -/
structure Held (d : Design) (s₀ : Sys α) (env : ℕ → SvecBaseWr.In) (t k : ℕ) (a : Access) (p : Phase)
    (l : Submap → List Transfer) (rs : Bool × Bool) : Prop where
  phase : At p (cardAt d s₀ env k).wr.base
  began : t < k
  host : hostAt d s₀ env k = hostAt d s₀ env t
  seen : ∀ m, collect (transferAt d s₀ env m) k = collect (transferAt d s₀ env m) t ++ l m
  resets : (viewAt d s₀ env k).resets = rs
  adr : (cardAt d s₀ env k).wr.base.wrAdrD0 = a.adr.extractLsb' 2 12
  dat : (cardAt d s₀ env k).wr.base.wrDatD0 = a.dat
  sel : (cardAt d s₀ env k).wr.base.wrSelD0 = a.sel
  alone : ∀ j, t ≤ j → j < k → ∀ m, (submapAt d s₀ env m j).stb = true → a.place = .submap m

section Held

variable {k : ℕ} {a : Access} {rest : Option Word → Script α} {p q : Phase} {l l' : Submap → List Transfer}
  {rs rs' : Bool × Bool}

/-- The bus while the host holds an access. -/
theorem bus_access (hscript : (hostAt d s₀ env t).script = .access a rest) :
    (blockAt d s₀ env t).wbEn = true ∧ (blockAt d s₀ env t).wb.we = a.we ∧
      decode (blockAt d s₀ env t).wbAdr = a.place := by
  have hwb := wb_access hscript
  refine ⟨?_, ?_, ?_⟩
  · rw [In.wbEn, hwb]
    rfl
  · rw [hwb]
    rfl
  · rw [In.wbAdr, hwb]
    rfl

/-- The first cycle of an access. -/
theorem Held.begin (hidle : At .idle (cardAt d s₀ env t).wr.base)
    (hscript : (hostAt d s₀ env t).script = .access a rest) :
    Held d s₀ env t (t + 1) a (if a.we then .writeRequested else readPhase a.place) (fun _ => [])
      (viewAt d s₀ env t).resets := by
  obtain ⟨hen, hwe, hdec⟩ := bus_access hscript
  obtain ⟨hadr, hdat, hsel, -⟩ := step_bus (r := (cardAt d s₀ env t).wr.base) (i := blockAt d s₀ env t) rfl
  have hwb := wb_access hscript
  have hnext : At (if a.we then .writeRequested else readPhase a.place) (cardAt d s₀ env (t + 1)).wr.base ∧
      ackInt (cardAt d s₀ env t).wr.base (blockAt d s₀ env t) = false := by
    cases hw : a.we with
    | true => exact hidle.write rfl hen (hwe.trans hw)
    | false => exact hdec ▸ hidle.read rfl hen (hwe.trans hw)
  have hquiet : ∀ m, (submapAt d s₀ env m t).stb = false := fun m => by simp [hidle.strobe]
  refine ⟨hnext.1, Nat.lt_succ_self t, host_stays hscript hnext.2, fun m => ?_,
    hidle.resets_stay (by simp), ?_, ?_, ?_, fun j htj hjt m hstb => ?_⟩
  · rw [collect_succ, transferAt_eq_nil (hquiet m)]
  · rw [base_succ, hadr, In.wbAdr, hwb]
    rfl
  · rw [base_succ, hdat, hwb]
    rfl
  · rw [base_succ, hsel, hwb]
    rfl
  · obtain rfl : j = t := by omega
    rw [hquiet] at hstb
    exact absurd hstb Bool.false_ne_true

/-- No other submap is strobed in this cycle either. -/
theorem Held.alone_after (h : Held d s₀ env t k a p l rs)
    (halone : ∀ m, p = .writeBusy m ∨ p = .readBusy m → a.place = .submap m) {j : ℕ} (htj : t ≤ j)
    (hjk : j < k + 1) {m : Submap} (hstb : (submapAt d s₀ env m j).stb = true) : a.place = .submap m := by
  rcases Nat.lt_succ_iff_lt_or_eq.mp hjk with hjk | rfl
  · exact h.alone j htj hjk m hstb
  · rw [h.phase.strobe] at hstb
    exact halone m (of_decide_eq_true hstb)

/-- A cycle without an acknowledge. -/
theorem Held.next (h : Held d s₀ env t k a p l rs) (hscript : (hostAt d s₀ env t).script = .access a rest)
    (hphase : At q (cardAt d s₀ env (k + 1)).wr.base)
    (hack : ackInt (cardAt d s₀ env k).wr.base (blockAt d s₀ env k) = false)
    (hseen : ∀ m, l m ++ transferAt d s₀ env m k = l' m) (hresets : (viewAt d s₀ env (k + 1)).resets = rs')
    (halone : ∀ m, p = .writeBusy m ∨ p = .readBusy m → a.place = .submap m) :
    Held d s₀ env t (k + 1) a q l' rs' := by
  have hscript' : (hostAt d s₀ env k).script = .access a rest := by rw [h.host, hscript]
  have hwb := wb_access hscript'
  obtain ⟨hadr, hdat, hsel, -⟩ := step_bus (r := (cardAt d s₀ env k).wr.base) (i := blockAt d s₀ env k) rfl
  refine ⟨hphase, Nat.lt_succ_of_lt h.began, (host_stays hscript' hack).trans h.host, fun m => ?_, hresets,
    ?_, ?_, ?_, fun j htj hjk m hstb => h.alone_after halone htj hjk hstb⟩
  · rw [collect_succ, h.seen, List.append_assoc, hseen]
  · rw [base_succ, hadr, In.wbAdr, hwb]
    rfl
  · rw [base_succ, hdat, hwb]
    rfl
  · rw [base_succ, hsel, hwb]
    rfl

/-- The cycle with the acknowledge. -/
theorem Held.ends (h : Held d s₀ env t k a p l rs) (hscript : (hostAt d s₀ env t).script = .access a rest)
    (hack : ackInt (cardAt d s₀ env k).wr.base (blockAt d s₀ env k) = true) {x : Word}
    (hseen : ∀ m, l m ++ transferAt d s₀ env m k =
      if a.place = .submap m then [⟨a.we, a.within m, a.sel, a.dat, x⟩] else [])
    (hresets : (viewAt d s₀ env (k + 1)).resets = ((viewAt d s₀ env t).access a x).resets)
    (hread : a.we = false → (cardAt d s₀ env k).wr.base.wbDatO = x)
    (halone : ∀ m, p = .writeBusy m ∨ p = .readBusy m → a.place = .submap m)
    (hword : a.we = false → (∀ m, a.place ≠ .submap m) → x = wordAt d s₀ env t a)
    (haddr : a.we = true → ∀ b, a.place = .csrDdrAddr b → (cardAt d s₀ env (k + 1)).wr.csrDdrAddr b = a.dat)
    (hsoon : (∀ m, a.place ≠ .submap m) → k ≤ t + 2) :
    (hostAt d s₀ env (k + 1)).script = rest (a.reply x) ∧ Accessed d s₀ env t (k + 1) a x := by
  have hscript' : (hostAt d s₀ env k).script = .access a rest := by rw [h.host, hscript]
  have hreply : a.reply (cardAt d s₀ env k).wr.base.wbDatO = a.reply x := by
    unfold Access.reply
    cases hw : a.we with
    | true => rfl
    | false => rw [hread hw]
  have hmoves := host_moves hscript' hack
  rw [hreply] at hmoves
  have hanswers : (viewAt d s₀ env (k + 1)).answers = ((viewAt d s₀ env t).access a x).answers := by
    show (hostAt d s₀ env (k + 1)).answers = (hostAt d s₀ env t).answers ++ [a.reply x]
    rw [hmoves, h.host]
  have htransfers : (viewAt d s₀ env (k + 1)).transfers = ((viewAt d s₀ env t).access a x).transfers := by
    funext m
    show collect (transferAt d s₀ env m) (k + 1) = _
    rw [collect_succ, h.seen, List.append_assoc, hseen]
    rfl
  refine ⟨by rw [hmoves], ?_, hword, haddr, fun j htj hjk m hstb => h.alone_after halone htj hjk hstb,
    fun hplace => Nat.succ_le_succ (hsoon hplace)⟩
  calc viewAt d s₀ env (k + 1)
      = ⟨(viewAt d s₀ env (k + 1)).answers, (viewAt d s₀ env (k + 1)).transfers,
          (viewAt d s₀ env (k + 1)).resets⟩ := rfl
    _ = (viewAt d s₀ env t).access a x := by rw [hanswers, htransfers, hresets]

/-! ### Accesses of registers and ROMs -/

/-- What is no submap sees no transfer. -/
theorem no_transfer (hplace : ∀ m, a.place ≠ .submap m) (x : Word) (m : Submap) :
    (if a.place = .submap m then [(⟨a.we, a.within m, a.sel, a.dat, x⟩ : Transfer)] else []) = [] :=
  if_neg (hplace m)

/-- A phase in which no submap is busy. -/
theorem Held.quiet (h : Held d s₀ env t k a p l rs) (hbusy : ∀ m, ¬ (p = .writeBusy m ∨ p = .readBusy m))
    (m : Submap) : transferAt d s₀ env m k = [] :=
  transferAt_eq_nil ((h.phase.strobe m).trans (decide_eq_false (hbusy m)))

/-- A write of anything but a submap. -/
theorem write_register (hidle : At .idle (cardAt d s₀ env t).wr.base)
    (hscript : (hostAt d s₀ env t).script = .access a rest) (hwe : a.we = true)
    (hplace : ∀ m, a.place ≠ .submap m) :
    ∃ u x, t < u ∧ At .idle (cardAt d s₀ env u).wr.base ∧ (hostAt d s₀ env u).script = rest (a.reply x) ∧
      Accessed d s₀ env t u a x := by
  have h := Held.begin hidle hscript
  rw [if_pos hwe] at h
  have hscript₁ : (hostAt d s₀ env (t + 1)).script = .access a rest := by rw [h.host, hscript]
  obtain ⟨hen, hbus, -⟩ := bus_access hscript₁
  have hdec : decode (cardAt d s₀ env (t + 1)).wr.base.wrAdrD0 = a.place := by rw [h.adr]; rfl
  obtain ⟨hphase, hack⟩ := h.phase.decoded rfl hen (hbus.trans hwe)
  rw [hdec] at hphase hack
  have hquiet := h.quiet (by simp)
  have hreq : csrResetsWreq (cardAt d s₀ env (t + 1)).wr.base = decide (a.place = .csrResets) := by
    rw [csrResetsWreq, hdec, h.phase.wrReqD0, decide_eq_true rfl, Bool.and_true]
  have hnext : (viewAt d s₀ env (t + 2)).resets = _ := resets_succ (t + 1)
  rw [hreq, h.dat, h.resets] at hnext
  by_cases hresets : a.place = .csrResets
  · have h₂ : Held d s₀ env t (t + 2) a .resetsWritten (fun _ => [])
        (a.dat.getLsbD 0, a.dat.getLsbD 1) := by
      refine h.next hscript ?_ ?_ (fun m => hquiet m) ?_ (by simp)
      · rw [hresets] at hphase
        exact hphase
      · rw [hack, hresets]
        rfl
      · rw [hnext, if_pos (decide_eq_true hresets)]
    have hscript₂ : (hostAt d s₀ env (t + 2)).script = .access a rest := by rw [h₂.host, hscript]
    obtain ⟨hen₂, hbus₂, -⟩ := bus_access hscript₂
    have hdec₂ : decode (cardAt d s₀ env (t + 2)).wr.base.wrAdrD0 = .csrResets := by
      rw [h₂.adr]
      exact hresets
    obtain ⟨hidle₃, hack₂⟩ := h₂.phase.resets_answer rfl hen₂ (hbus₂.trans hwe) hdec₂
    refine ⟨t + 3, 0#32, by omega, hidle₃, h₂.ends hscript hack₂ ?_ ?_ ?_ (by simp) ?_ ?_ ?_⟩
    · exact fun m => (h₂.quiet (by simp) m).trans (no_transfer hplace _ m).symm
    · rw [h₂.phase.resets_stay (by simp), h₂.resets, View.access_resets _ _ ⟨hwe, hresets⟩]
    · exact fun hno => absurd (hwe.symm.trans hno) (by decide)
    · exact fun hno => absurd (hwe.symm.trans hno) (by decide)
    · exact fun _ b hb => absurd (hresets.symm.trans hb) (by simp)
    · exact fun _ => Nat.le_refl _
  · have hend : writePhase a.place = .idle := by
      cases hp : a.place <;> simp_all [writePhase]
    rw [hend] at hphase hack
    refine ⟨t + 2, 0#32, by omega, hphase, h.ends hscript hack ?_ ?_ ?_ (by simp) ?_ ?_ ?_⟩
    · exact fun m => (hquiet m).trans (no_transfer hplace _ m).symm
    · rw [hnext, View.access_resets_else _ _ fun both => hresets both.2, decide_eq_false hresets]
      rfl
    · exact fun hno => absurd (hwe.symm.trans hno) (by decide)
    · exact fun hno => absurd (hwe.symm.trans hno) (by decide)
    · intro _ b hb
      have hwreq : csrDdrAddrWreq (cardAt d s₀ env (t + 1)).wr.base b = true := by
        rw [csrDdrAddrWreq, hdec, hb, h.phase.wrReqD0]
        simp
      show (if csrDdrAddrWreq (cardAt d s₀ env (t + 1)).wr.base b then
        (cardAt d s₀ env (t + 1)).wr.base.wrDatD0 else _) = a.dat
      rw [if_pos hwreq, h.dat]
    · exact fun _ => Nat.le_succ _

/-- The word that a read brings. -/
theorem wbDatO_succ (t : ℕ) : (cardAt d s₀ env (t + 1)).wr.base.wbDatO =
    rdDatD0 (cardAt d s₀ env t).wr.base (blockAt d s₀ env t) :=
  (step_bus (r := (cardAt d s₀ env t).wr.base) (i := blockAt d s₀ env t) rfl).2.2.2

/-- A register gives its word at once. -/
theorem register_word (hdec : decode (blockAt d s₀ env t).wbAdr = a.place) (hplace : ∀ m, a.place ≠ .submap m)
    (hrom : ¬ (a.place = .metadata ∨ a.place = .buildinfo)) :
    rdDatD0 (cardAt d s₀ env t).wr.base (blockAt d s₀ env t) = wordAt d s₀ env t a := by
  unfold rdDatD0 wordAt
  rw [hdec]
  cases hp : a.place with
  | metadata => exact absurd (.inl hp) hrom
  | buildinfo => exact absurd (.inr hp) hrom
  | submap m => exact absurd hp (hplace m)
  | _ => rfl

/-- A ROM gives it a cycle after the request. -/
theorem rom_word (hidle : At .idle (cardAt d s₀ env t).wr.base)
    (hscript : (hostAt d s₀ env t).script = .access a rest) (hwe : a.we = false)
    (hdec : decode (blockAt d s₀ env (t + 1)).wbAdr = a.place)
    (hrom : a.place = .metadata ∨ a.place = .buildinfo) :
    rdDatD0 (cardAt d s₀ env (t + 1)).wr.base (blockAt d s₀ env (t + 1)) = wordAt d s₀ env t a := by
  obtain ⟨hen, hbus, hfirst⟩ := bus_access hscript
  have hreq : rdReqInt (cardAt d s₀ env t).wr.base (blockAt d s₀ env t) = true := by
    simp [hidle.rdReqInt, hen, hbus, hwe, Phase.reading]
  have hadr : (blockAt d s₀ env t).wbAdr = a.adr.extractLsb' 2 12 := by
    rw [In.wbAdr, wb_access hscript]
    rfl
  unfold rdDatD0 wordAt
  rw [hdec]
  rcases hrom with hp | hp
  · rw [hp]
    show pMetadata d.generics d.sourceid (metadataAddr d (cardAt d s₀ env t) _) = _
    have hre : metadataRe (cardAt d s₀ env t).wr.base (blockAt d s₀ env t) = true := by
      rw [metadataRe, hfirst, hreq, hp]
      rfl
    rw [metadataAddr, if_pos hre, hadr, ← BitVec.setWidth_eq_extractLsb' (by decide), low_bits _ (by decide)]
  · rw [hp]
    show pBuildinfo d.buildinfo (buildinfoAddr d (cardAt d s₀ env t) _) = _
    have hre : buildinfoRe (cardAt d s₀ env t).wr.base (blockAt d s₀ env t) = true := by
      rw [buildinfoRe, hfirst, hreq, hp]
      rfl
    rw [buildinfoAddr, if_pos hre, hadr, ← BitVec.setWidth_eq_extractLsb' (by decide), low_bits _ (by decide)]

/-- The cycle in which a read is acknowledged. -/
theorem Held.read_ends (h : Held d s₀ env t k a .readDone l rs)
    (hscript : (hostAt d s₀ env t).script = .access a rest) (hwe : a.we = false) {x : Word}
    (hseen : ∀ m, l m = if a.place = .submap m then [⟨a.we, a.within m, a.sel, a.dat, x⟩] else [])
    (hresets : rs = (viewAt d s₀ env t).resets) (hread : (cardAt d s₀ env k).wr.base.wbDatO = x)
    (hword : (∀ m, a.place ≠ .submap m) → x = wordAt d s₀ env t a)
    (hsoon : (∀ m, a.place ≠ .submap m) → k ≤ t + 2) :
    ∃ u x, t < u ∧ At .idle (cardAt d s₀ env u).wr.base ∧ (hostAt d s₀ env u).script = rest (a.reply x) ∧
      Accessed d s₀ env t u a x := by
  have hscript' : (hostAt d s₀ env k).script = .access a rest := by rw [h.host, hscript]
  obtain ⟨-, hbus, -⟩ := bus_access hscript'
  obtain ⟨hidle, hack⟩ := h.phase.done (i := blockAt d s₀ env k) rfl (hbus.trans hwe)
  have hno : ¬ (a.we = true ∧ a.place = .csrResets) := fun both => absurd (hwe.symm.trans both.1) (by decide)
  refine ⟨k + 1, x, Nat.lt_succ_of_lt h.began, hidle, h.ends hscript hack (fun m => ?_) ?_ (fun _ => hread)
    (by simp) (fun _ => hword) (fun hw => absurd (hwe.symm.trans hw) (by decide)) hsoon⟩
  · rw [h.quiet (by simp), List.append_nil, hseen]
  · rw [h.phase.resets_stay (by simp), h.resets, hresets, View.access_resets_else _ _ hno]

/-- A read of anything but a submap. -/
theorem read_register (hidle : At .idle (cardAt d s₀ env t).wr.base)
    (hscript : (hostAt d s₀ env t).script = .access a rest) (hwe : a.we = false)
    (hplace : ∀ m, a.place ≠ .submap m) :
    ∃ u x, t < u ∧ At .idle (cardAt d s₀ env u).wr.base ∧ (hostAt d s₀ env u).script = rest (a.reply x) ∧
      Accessed d s₀ env t u a x := by
  have h := Held.begin hidle hscript
  rw [hwe, if_neg Bool.false_ne_true] at h
  obtain ⟨-, -, hdec⟩ := bus_access hscript
  by_cases hrom : a.place = .metadata ∨ a.place = .buildinfo
  · have hscript₁ : (hostAt d s₀ env (t + 1)).script = .access a rest := by rw [h.host, hscript]
    obtain ⟨-, hbus₁, hdec₁⟩ := bus_access hscript₁
    have hrom₁ : At .readDone (cardAt d s₀ env (t + 2)).wr.base ∧
        ackInt (cardAt d s₀ env (t + 1)).wr.base (blockAt d s₀ env (t + 1)) = false :=
      At.rom_answers (hdec₁.symm ▸ h.phase) rfl (hbus₁.trans hwe) (hdec₁.symm ▸ hrom)
    have hquiet := h.quiet fun m => by rcases hrom with hp | hp <;> simp [hp, readPhase]
    have h₂ : Held d s₀ env t (t + 2) a .readDone (fun _ => []) (viewAt d s₀ env t).resets := by
      refine h.next hscript hrom₁.1 hrom₁.2 (fun m => hquiet m) ?_ fun m => ?_
      · rw [h.phase.resets_stay (by rcases hrom with hp | hp <;> simp [hp, readPhase]), h.resets]
      · rcases hrom with hp | hp <;> simp [hp, readPhase]
    exact h₂.read_ends hscript hwe (fun m => (no_transfer hplace _ m).symm) rfl
      ((wbDatO_succ (t + 1)).trans (rom_word hidle hscript hwe hdec₁ hrom)) (fun _ => rfl) (fun _ => Nat.le_refl _)
  · have hdone : readPhase a.place = .readDone := by
      cases hp : a.place <;> simp_all [readPhase]
    rw [hdone] at h
    exact h.read_ends hscript hwe (fun m => (no_transfer hplace _ m).symm) rfl
      ((wbDatO_succ t).trans (register_word hdec hplace hrom)) (fun _ => rfl) (fun _ => Nat.le_succ _)

/-! ### Accesses of submaps -/

/-- The block is busy with an access of a submap. -/
def Busy (a : Access) (m : Submap) (p : Phase) : Prop :=
  a.place = .submap m ∧ p = if a.we then .writeBusy m else .readBusy m

/-- The only transfer is the one with the acknowledge. -/
theorem Held.transfer (h : Held d s₀ env t k a p l rs) (hscript : (hostAt d s₀ env t).script = .access a rest)
    {m : Submap} (hbusy : Busy a m p) (m' : Submap) : transferAt d s₀ env m' k =
      if ((blockAt d s₀ env k).submapI m).ack then
        if a.place = .submap m' then
          [⟨a.we, a.within m', a.sel, a.dat, ((blockAt d s₀ env k).submapI m).dat⟩]
        else []
      else [] := by
  obtain ⟨hplace, rfl⟩ := hbusy
  have hscript' : (hostAt d s₀ env k).script = .access a rest := by rw [h.host, hscript]
  by_cases hm : m' = m
  · subst hm
    have hlines : submapAt d s₀ env m' k = ⟨true, true, a.within m', a.sel, a.we, a.dat⟩ := by
      have hadr : (((blockAt d s₀ env k).wbAdr.setWidth m'.adrBits).setWidth 32) <<< 2 = a.within m' := by
        rw [In.wbAdr, wb_access hscript']
        show ((a.adr.extractLsb' 2 12).setWidth _).setWidth 32 <<< 2 = _
        rw [low_bits _ (adrBits_le m'), Access.within]
      rw [submapAt, submapO, hadr, h.sel, h.dat, h.phase.wt, h.phase.rt]
      cases a.we <;> simp
    simp only [transferAt, hlines, hplace, if_true, Bool.true_and]
  · have hstb : (submapAt d s₀ env m' k).stb = false := by
      rw [h.phase.strobe]
      cases a.we <;> simp [Ne.symm hm]
    have hother : a.place ≠ .submap m' := by simp [hplace, Ne.symm hm]
    rw [transferAt_eq_nil hstb, if_neg hother, ite_self]

/-- The slaves acknowledge each strobe in the end. -/
def Answering (d : Design) (s₀ : Sys α) (env : ℕ → SvecBaseWr.In) : Prop :=
  ∀ m t, present d.generics m = true → (submapAt d s₀ env m t).stb = true →
    ∃ u, t ≤ u ∧ ((env u).submapIn m).ack = true

/-- What is tied off does so anyway. -/
theorem Answering.acks (hlive : Answering d s₀ env) {m : Submap} {t : ℕ}
    (hstb : (submapAt d s₀ env m t).stb = true) : ∃ u, t ≤ u ∧ ((blockAt d s₀ env u).submapI m).ack = true := by
  have hline : ∀ u, (blockAt d s₀ env u).submapI m =
      if present d.generics m then (env u).submapIn m else tiedOff m := fun _ => rfl
  cases hp : present d.generics m with
  | true =>
    obtain ⟨u, htu, hack⟩ := hlive m t hp hstb
    exact ⟨u, htu, by rw [hline, hp, if_pos rfl, hack]⟩
  | false =>
    refine ⟨t, Nat.le_refl t, ?_⟩
    rw [hline, hp, if_neg Bool.false_ne_true]
    cases m <;> rfl

/-- A busy block stays so until the submap acknowledges. -/
theorem Held.until_ack (h : Held d s₀ env t k a p l rs) (hscript : (hostAt d s₀ env t).script = .access a rest)
    (hlive : Answering d s₀ env) {m : Submap} (hbusy : Busy a m p) :
    ∃ u, Held d s₀ env t u a p l rs ∧ ((blockAt d s₀ env u).submapI m).ack = true := by
  have hstb : (submapAt d s₀ env m k).stb = true := by
    rw [h.phase.strobe, hbusy.2]
    cases a.we <;> simp
  obtain ⟨v, hkv, hv⟩ := hlive.acks hstb
  obtain ⟨u, hku, -, hack, hfirst⟩ := exists_first
    (P := fun j => ((blockAt d s₀ env j).submapI m).ack = true) hkv hv
  suffices hall : ∀ j, k ≤ j → j ≤ u → Held d s₀ env t j a p l rs from
    ⟨u, hall u hku (Nat.le_refl u), hack⟩
  intro j hkj
  induction hkj with
  | refl => exact fun _ => h
  | @step j hkj ih =>
    intro hju
    have hj := ih (Nat.le_of_succ_le hju)
    have hno : ((blockAt d s₀ env j).submapI m).ack = false := Bool.eq_false_iff.mpr (hfirst j hkj hju)
    have hscript' : (hostAt d s₀ env j).script = .access a rest := by rw [hj.host, hscript]
    obtain ⟨hen, hbus, hdec⟩ := bus_access hscript'
    have hquiet : ∀ m', transferAt d s₀ env m' j = [] := fun m' => by
      rw [hj.transfer hscript hbusy, hno, if_neg Bool.false_ne_true]
    have hstays : At p (cardAt d s₀ env (j + 1)).wr.base ∧
        ackInt (cardAt d s₀ env j).wr.base (blockAt d s₀ env j) = false := by
      obtain ⟨hplace, hp⟩ := hbusy
      cases hwe : a.we with
      | true =>
        rw [hwe, if_pos rfl] at hp
        have hadr : decode (cardAt d s₀ env j).wr.base.wrAdrD0 = .submap m := by
          rw [hj.adr]
          exact hplace
        have hgo := (hp ▸ hj.phase).write_goes_on rfl hen (hbus.trans hwe) hadr
        rw [hno, if_neg Bool.false_ne_true] at hgo
        exact hp ▸ hgo
      | false =>
        rw [hwe, if_neg Bool.false_ne_true] at hp
        have hgo := (hp ▸ hj.phase).read_goes_on rfl (hbus.trans hwe) (hdec.trans hplace)
        rw [hno, if_neg Bool.false_ne_true] at hgo
        exact hp ▸ hgo
    have hp : p ≠ .writeRequested := by
      rw [hbusy.2]
      cases a.we <;> simp
    refine hj.next hscript hstays.1 hstays.2 (fun m' => by rw [hquiet, List.append_nil]) ?_ fun m' hm' => ?_
    · rw [hj.phase.resets_stay hp, hj.resets]
    · rw [hbusy.1]
      rw [hbusy.2] at hm'
      cases hwe : a.we <;> simp_all

/-- The transfers of an access of a submap after the acknowledge. -/
theorem Held.transferred (h : Held d s₀ env t k a p (fun _ => []) rs)
    (hscript : (hostAt d s₀ env t).script = .access a rest) {m : Submap} (hbusy : Busy a m p)
    (hack : ((blockAt d s₀ env k).submapI m).ack = true) (m' : Submap) :
    [] ++ transferAt d s₀ env m' k = if a.place = .submap m' then
      [⟨a.we, a.within m', a.sel, a.dat, ((blockAt d s₀ env k).submapI m).dat⟩] else [] := by
  rw [h.transfer hscript hbusy, hack, if_pos rfl, List.nil_append]

/-- An access of a submap. -/
theorem access_submap (hlive : Answering d s₀ env) (hidle : At .idle (cardAt d s₀ env t).wr.base)
    (hscript : (hostAt d s₀ env t).script = .access a rest) {m : Submap} (hplace : a.place = .submap m) :
    ∃ u x, t < u ∧ At .idle (cardAt d s₀ env u).wr.base ∧ (hostAt d s₀ env u).script = rest (a.reply x) ∧
      Accessed d s₀ env t u a x := by
  have h := Held.begin hidle hscript
  have hno : ¬ (a.we = true ∧ a.place = .csrResets) := fun both => by simp [hplace] at both
  have hfar : ¬ ∀ m, a.place ≠ .submap m := fun hnone => hnone m hplace
  have halone : ∀ {p : Phase}, Busy a m p → ∀ m', p = .writeBusy m' ∨ p = .readBusy m' → a.place = .submap m' := by
    rintro p ⟨-, rfl⟩ m' hm'
    cases hwe : a.we <;> simp_all
  cases hwe : a.we with
  | true =>
    rw [hwe, if_pos rfl] at h
    have hscript₁ : (hostAt d s₀ env (t + 1)).script = .access a rest := by rw [h.host, hscript]
    obtain ⟨hen₁, hbus₁, -⟩ := bus_access hscript₁
    have hdec₁ : decode (cardAt d s₀ env (t + 1)).wr.base.wrAdrD0 = .submap m := by
      rw [h.adr]
      exact hplace
    obtain ⟨hphase, hack₁⟩ := h.phase.decoded rfl hen₁ (hbus₁.trans hwe)
    rw [hdec₁] at hphase hack₁
    have h₂ : Held d s₀ env t (t + 2) a (.writeBusy m) (fun _ => []) (viewAt d s₀ env t).resets := by
      refine h.next hscript hphase hack₁ (fun m' => h.quiet (by simp) m') ?_ (by simp)
      rw [resets_succ, csrResetsWreq, hdec₁, h.resets]
      exact if_neg (by simp)
    have hbusy : Busy a m (.writeBusy m) := ⟨hplace, by rw [hwe, if_pos rfl]⟩
    obtain ⟨u, hu, hack⟩ := h₂.until_ack hscript hlive hbusy
    have hscript' : (hostAt d s₀ env u).script = .access a rest := by rw [hu.host, hscript]
    obtain ⟨hen, hbus, -⟩ := bus_access hscript'
    have hdec : decode (cardAt d s₀ env u).wr.base.wrAdrD0 = .submap m := by
      rw [hu.adr]
      exact hplace
    obtain ⟨hidle', hanswer⟩ := hu.phase.write_goes_on rfl hen (hbus.trans hwe) hdec
    rw [hack] at hidle' hanswer
    refine ⟨u + 1, _, Nat.lt_succ_of_lt hu.began, hidle', hu.ends hscript hanswer
      (hu.transferred hscript hbusy hack) ?_ ?_ (halone hbusy) ?_ ?_ ?_⟩
    · rw [hu.phase.resets_stay (by simp), hu.resets, View.access_resets_else _ _ hno]
    · exact fun hw => absurd (hwe.symm.trans hw) (by decide)
    · exact fun hw => absurd (hwe.symm.trans hw) (by decide)
    · exact fun _ b hb => absurd (hplace.symm.trans hb) (by simp)
    · exact fun hnone => absurd hnone hfar
  | false =>
    rw [hwe, if_neg Bool.false_ne_true, hplace] at h
    have hbusy : Busy a m (readPhase (.submap m)) := ⟨hplace, by rw [hwe, if_neg Bool.false_ne_true]; rfl⟩
    obtain ⟨u, hu, hack⟩ := h.until_ack hscript hlive hbusy
    have hscript' : (hostAt d s₀ env u).script = .access a rest := by rw [hu.host, hscript]
    obtain ⟨-, hbus, hdec⟩ := bus_access hscript'
    have hgo := At.read_goes_on (m := m) (i := blockAt d s₀ env u) hu.phase rfl (hbus.trans hwe)
      (hdec.trans hplace)
    rw [hack, if_pos rfl] at hgo
    have hdone : Held d s₀ env t (u + 1) a .readDone _ (viewAt d s₀ env t).resets :=
      hu.next hscript hgo.1 hgo.2 (hu.transferred hscript hbusy hack)
        (by rw [hu.phase.resets_stay (by simp [readPhase]), hu.resets]) (halone hbusy)
    refine hdone.read_ends hscript hwe (fun _ => rfl) rfl ?_ (fun hnone => absurd hnone hfar)
      (fun hnone => absurd hnone hfar)
    rw [wbDatO_succ, rdDatD0, hdec, hplace]

end Held

/-! ## Access by access -/

/-- An access of any place. -/
theorem access_served (hlive : Answering d s₀ env) (hidle : At .idle (cardAt d s₀ env t).wr.base) {a : Access}
    {rest : Option Word → Script α} (hscript : (hostAt d s₀ env t).script = .access a rest) :
    ∃ u x, t < u ∧ At .idle (cardAt d s₀ env u).wr.base ∧
      (hostAt d s₀ env u).script = rest (a.reply x) ∧ Accessed d s₀ env t u a x := by
  by_cases hplace : ∃ m, a.place = .submap m
  · obtain ⟨m, hm⟩ := hplace
    exact access_submap hlive hidle hscript hm
  · have hnone : ∀ m, a.place ≠ .submap m := fun m hm => hplace ⟨m, hm⟩
    cases hwe : a.we with
    | true => exact write_register hidle hscript hwe hnone
    | false => exact read_register hidle hscript hwe hnone

theorem pause_served (hidle : At .idle (cardAt d s₀ env t).wr.base) {lines : WbMasterOut} {rest : Script α}
    (hscript : (hostAt d s₀ env t).script = .pause lines rest) :
    At .idle (cardAt d s₀ env (t + 1)).wr.base ∧ (hostAt d s₀ env (t + 1)).script = rest ∧
      viewAt d s₀ env (t + 1) = viewAt d s₀ env t := by
  have hen : (blockAt d s₀ env t).wbEn = false := by
    show ((hostAt d s₀ env t).lines.cyc && (hostAt d s₀ env t).lines.stb) = false
    rw [Host.lines, hscript]
    exact Bool.and_false _
  have hhost : hostAt d s₀ env (t + 1) = ⟨rest, (hostAt d s₀ env t).answers⟩ := by
    rw [host_succ, Host.next, hscript]
  have hquiet : ∀ m, transferAt d s₀ env m t = [] := fun m =>
    transferAt_eq_nil (by rw [hidle.strobe]; simp)
  refine ⟨(hidle.stays rfl hen).1, by rw [hhost], ?_⟩
  have hanswers : (viewAt d s₀ env (t + 1)).answers = (viewAt d s₀ env t).answers := by
    show (hostAt d s₀ env (t + 1)).answers = _
    rw [hhost]
    rfl
  have htransfers : (viewAt d s₀ env (t + 1)).transfers = (viewAt d s₀ env t).transfers := by
    funext m
    show collect (transferAt d s₀ env m) (t + 1) = _
    rw [collect_succ, hquiet, List.append_nil]
    rfl
  calc viewAt d s₀ env (t + 1)
      = ⟨(viewAt d s₀ env (t + 1)).answers, (viewAt d s₀ env (t + 1)).transfers,
          (viewAt d s₀ env (t + 1)).resets⟩ := rfl
    _ = viewAt d s₀ env t := by rw [hanswers, htransfers, hidle.resets_stay (by simp)]

end Cycle

/-! ## Whole scripts -/

section Runs

variable (d : Design) (s₀ : Sys α) (env : ℕ → SvecBaseWr.In)

/-- From `t` to `u` a script comes to the result `r`; `l` are its accesses, each with the word
that was on the lines to the host. -/
inductive Runs : Script α → ℕ → List (Access × Word) → α → ℕ → Prop where
  | ret (r : α) (t : ℕ) : Runs (.ret r) t [] r t
  | pause {lines : WbMasterOut} {rest : Script α} {t u : ℕ} {l : List (Access × Word)} {r : α}
      (same : viewAt d s₀ env (t + 1) = viewAt d s₀ env t) (h : Runs rest (t + 1) l r u) :
      Runs (.pause lines rest) t l r u
  | access {a : Access} {x : Word} {rest : Option Word → Script α} {t u v : ℕ} {l : List (Access × Word)}
      {r : α} (later : t < u) (served : Accessed d s₀ env t u a x) (h : Runs (rest (a.reply x)) u l r v) :
      Runs (.access a rest) t ((a, x) :: l) r v

variable {d s₀ env}

/-- Every script runs to its end. -/
theorem exists_runs (hlive : Answering d s₀ env) (p : Script α) {t : ℕ}
    (hidle : At .idle (cardAt d s₀ env t).wr.base) (hscript : (hostAt d s₀ env t).script = p) :
    ∃ l r u, Runs d s₀ env p t l r u ∧ At .idle (cardAt d s₀ env u).wr.base ∧
      (hostAt d s₀ env u).script = .ret r := by
  induction p generalizing t with
  | ret r => exact ⟨[], r, t, .ret r t, hidle, hscript⟩
  | pause lines rest ih =>
    obtain ⟨hidle', hrest, hsame⟩ := pause_served hidle hscript
    obtain ⟨l, r, u, hruns, hend⟩ := ih hidle' hrest
    exact ⟨l, r, u, .pause hsame hruns, hend⟩
  | access a rest ih =>
    obtain ⟨u, x, htu, hidle', hrest, hserved⟩ := access_served hlive hidle hscript
    obtain ⟨l, r, v, hruns, hend⟩ := ih (a.reply x) hidle' hrest
    exact ⟨(a, x) :: l, r, v, .access htu hserved hruns, hend⟩

/-- To the host a run is its accesses, one after the other. -/
theorem Runs.view {p : Script α} {t u : ℕ} {l : List (Access × Word)} {r : α} (h : Runs d s₀ env p t l r u) :
    viewAt d s₀ env u = l.foldl (fun v access => v.access access.1 access.2) (viewAt d s₀ env t) := by
  induction h with
  | ret r t => rfl
  | pause same _ ih => rw [ih, same]
  | access _ served _ ih => rw [List.foldl_cons, ih, served.view]

end Runs

/-- What a list of accesses makes of a view. -/
theorem foldl_access (l : List (Access × Word)) (v : View) :
    l.foldl (fun v access => v.access access.1 access.2) v =
      ⟨v.answers ++ l.map fun access => access.1.reply access.2,
        fun m => v.transfers m ++ l.flatMap fun access => access.1.transfer access.2 m,
        l.foldl (fun bits access => access.1.resets bits) v.resets⟩ := by
  induction l generalizing v with
  | nil => simp
  | cons access l ih =>
    rw [List.foldl_cons, ih]
    simp [View.access]

/-- The host at the start of a script. -/
def start (p : Script α) (card : Hdl.Carrier.Regs) : Sys α := ⟨⟨p, []⟩, card⟩

/-- The carrier serves its address map: whatever a host accesses, in any order, with any pauses
and as the replies tell it, it comes to its end.  Each access is answered once; a register or a
ROM returns its word within three cycles, and no access strobes a submap that it does not name.
A submap sees one transfer for each access that names it, with the address within it, the
direction and the word of that access, and its reply reaches the host; and the reset bits are
those of the last write to their register. -/
theorem map_serves {d : Design} (p : Script α) {card : Hdl.Carrier.Regs} {env : ℕ → SvecBaseWr.In}
    (hidle : At .idle card.wr.base) (hlive : Answering d (start p card) env) :
    ∃ l r u, Runs d (start p card) env p 0 l r u ∧
      hostAt d (start p card) env u = ⟨.ret r, l.map fun access => access.1.reply access.2⟩ ∧
      (∀ m, collect (transferAt d (start p card) env m) u =
        l.flatMap fun access => access.1.transfer access.2 m) ∧
      ((cardAt d (start p card) env u).wr.base.csrResetsGlobalReg,
          (cardAt d (start p card) env u).wr.base.csrResetsApplReg) =
        l.foldl (fun bits access => access.1.resets bits)
          (card.wr.base.csrResetsGlobalReg, card.wr.base.csrResetsApplReg) := by
  obtain ⟨l, r, u, hruns, -, hend⟩ := exists_runs (t := 0) hlive p hidle rfl
  have hview := hruns.view.trans (foldl_access l _)
  refine ⟨l, r, u, hruns, ?_, fun m => ?_, congrArg View.resets hview⟩
  · have hanswers : (hostAt d (start p card) env u).answers = _ := congrArg View.answers hview
    calc hostAt d (start p card) env u
        = ⟨(hostAt d (start p card) env u).script, (hostAt d (start p card) env u).answers⟩ := rfl
      _ = _ := by rw [hend, hanswers]; rfl
  · exact congrFun (congrArg View.transfers hview) m

/-! ## A card with nothing on it -/

/-- Nothing is there but the I2C master. -/
def bareDesign : Design := ⟨⟨false, false, false, false, false, false⟩, 0#32, 0#128, []⟩

/-- The registers after a reset. -/
def idleCard : Hdl.Carrier.Regs where
  wr := ⟨⟨false, false, false, 0#32, false, 0#12, 0#32, 0#4, false, false, false, false, false, false, false,
    fun _ => false, fun _ => false⟩, fun _ => 0#32, fun _ => false⟩
  metadataData := 0#32
  buildinfoData := 0#32

theorem idle_idleCard : At .idle idleCard.wr.base :=
  ⟨rfl, rfl, rfl, rfl, fun _ => rfl, fun _ => rfl, rfl, rfl, rfl, rfl, rfl⟩

/-- A slave that is there acknowledges every other cycle, whether it is asked or not. -/
def everyOther (t : ℕ) : SvecBaseWr.In where
  rstSys62m5N := true
  carrierWbIn := ⟨false, false, 0#32, 0#4, false, 0#32⟩
  metadataData := 0#32
  gAppOffset := 0#32
  fmcPresence := 0#32
  ddrCalibDone := fun _ => false
  pcbrevI := 0#5
  buildinfoData := 0#32
  submapIn := fun _ => ⟨t % 2 = 0, false, 0xcafe#32⟩
  undefined := 0#32

theorem everyOther_answers (d : Design) (s₀ : Sys α) : Answering d s₀ everyOther := by
  intro m t _ _
  refine ⟨t + t % 2, Nat.le_add_right _ _, decide_eq_true ?_⟩
  omega

/-- The application is put into reset, and a register of the I2C master is read. -/
def resetAndRead : Script (Option Word) :=
  .access ⟨0x44#32, 0xf#4, true, 0x2#32⟩ fun _ => .access ⟨0xa4#32, 0xf#4, false, 0#32⟩ .ret

theorem map_serves_resetAndRead :
    ∃ x u, hostAt bareDesign (start resetAndRead idleCard) everyOther u = ⟨.ret (some x), [none, some x]⟩ ∧
      collect (transferAt bareDesign (start resetAndRead idleCard) everyOther .fmcI2c) u =
        [⟨false, 0x04#32, 0xf#4, 0#32, x⟩] ∧
      (cardAt bareDesign (start resetAndRead idleCard) everyOther u).wr.base.csrResetsApplReg = true := by
  obtain ⟨l, r, u, hruns, hhost, hi2c, hresets⟩ := map_serves resetAndRead idle_idleCard
    (everyOther_answers bareDesign (start resetAndRead idleCard))
  have hwrite : ∀ x, Access.transfer ⟨0x44#32, 0xf#4, true, 0x2#32⟩ x .fmcI2c = [] := fun x => if_neg (by decide)
  have hread : ∀ x, Access.transfer ⟨0xa4#32, 0xf#4, false, 0#32⟩ x .fmcI2c =
      [⟨false, 0x04#32, 0xf#4, 0#32, x⟩] := fun x => if_pos (by decide)
  have hset : ∀ bits, Access.resets ⟨0x44#32, 0xf#4, true, 0x2#32⟩ bits = (false, true) :=
    fun bits => if_pos ⟨rfl, by decide⟩
  have hkept : ∀ bits, Access.resets ⟨0xa4#32, 0xf#4, false, 0#32⟩ bits = bits :=
    fun bits => if_neg fun both => absurd both.1 Bool.false_ne_true
  cases hruns with
  | access _ _ hrest =>
    cases hrest with
    | @access _ x _ _ _ _ _ _ _ _ hend =>
      cases hend
      refine ⟨x, u, hhost, ?_, ?_⟩
      · simpa [hwrite, hread] using hi2c .fmcI2c
      · simpa [hset, hkept] using congrArg Prod.snd hresets

end Svec.Carrier
