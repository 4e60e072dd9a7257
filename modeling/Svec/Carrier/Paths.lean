/-
  Carrier/Paths.lean --- what a host may rely on.

  A host knows neither the time nor what the slaves do.  What the carrier promises it
  is a transition system on the two reset bits: a ROM and a register of the design
  give their word, an input what it is at some time, and a submap whatever it likes.
-/
import Svec.Carrier.Map

set_option autoImplicit false

namespace Svec.Carrier

open Svec.Data Svec.Sync Svec.Hdl Svec.Hdl.SvecBaseRegs Svec.Hdl.SvecBaseRom Svec.Hdl.Carrier
open Svec.Prog.Script (Path Paced)

section Promise

variable (d : Design) (env : ℕ → SvecBaseWr.In)

/-- The reset register, by its two bits. -/
def resetsWord (bits : Bool × Bool) : Word := (BitVec.ofBool bits.2 ++ BitVec.ofBool bits.1).setWidth 32

/-- The word that a read may bring while the reset bits are `bits`. -/
def Gives (bits : Bool × Bool) (a : Access) (x : Word) : Prop :=
  match a.place with
  | .metadata => x = pMetadata d.generics d.sourceid (a.adr.extractLsb' 2 4)
  | .csrAppOffset => x = d.gAppOffset
  | .csrResets => x = resetsWord bits
  | .csrFmcPresence => ∃ t, x = (env t).fmcPresence
  | .csrUnused0 => x = 0#32
  | .csrDdrStatus => ∃ t, x = (BitVec.ofBool (gWithDdr d.generics .ddr5 && (env t).ddrCalibDone .ddr5) ++
      BitVec.ofBool (gWithDdr d.generics .ddr4 && (env t).ddrCalibDone .ddr4)).setWidth 32
  | .csrPcbRev => ∃ t, x = (env t).pcbrevI.setWidth 32
  | .buildinfo => x = pBuildinfo d.buildinfo (a.adr.extractLsb' 2 6)
  | .csrDdrAddr _ | .submap _ | .others => True

/-- What an access may bring, and what it makes of the reset bits. -/
def Step (bits : Bool × Bool) (a : Access) (x : Word) (bits' : Bool × Bool) : Prop :=
  (a.we = false → Gives d env bits a x) ∧ bits' = a.resets bits

end Promise

variable {α : Type} {d : Design} {s₀ : Sys α} {env : ℕ → SvecBaseWr.In}

theorem Accessed.gives {t u : ℕ} {a : Access} {x : Word} (h : Accessed d s₀ env t u a x)
    (hwe : a.we = false) : Gives d env (viewAt d s₀ env t).resets a x := by
  have hword := h.word hwe
  unfold Gives
  unfold wordAt at hword
  cases hp : a.place with
  | submap m => trivial
  | csrDdrAddr b => trivial
  | others => trivial
  | csrFmcPresence => exact ⟨t, by simpa [hp] using hword⟩
  | csrDdrStatus => exact ⟨t, by simpa [hp] using hword⟩
  | csrPcbRev => exact ⟨t, by simpa [hp] using hword⟩
  | _ => simpa [hp, resetsWord] using hword

/-- A run keeps the promise. -/
theorem Runs.path {p : Script α} {t u : ℕ} {l : List (Access × Word)} {r : α} (h : Runs d s₀ env p t l r u) :
    Path (Step d env) Access.reply p (viewAt d s₀ env t).resets l r (viewAt d s₀ env u).resets := by
  induction h with
  | ret r t => exact .ret r _
  | pause same _ ih =>
    rw [same] at ih
    exact .pause ih
  | access _ served _ ih =>
    refine .access ⟨served.gives, rfl⟩ ?_
    rw [served.view] at ih
    exact ih

/-- The reset bits at the end of a path are those that its accesses make. -/
theorem path_resets {p : Script α} {bits bits' : Bool × Bool} {l : List (Access × Word)} {r : α}
    (h : Path (Step d env) Access.reply p bits l r bits') :
    l.foldl (fun bits access => access.1.resets bits) bits = bits' := by
  induction h with
  | ret r bits => rfl
  | pause _ ih => exact ih
  | access first _ ih =>
    obtain ⟨-, rfl⟩ := first
    exact ih

/-- Whatever the pace at which a script is run, it comes to its end, and its result, its accesses
and the reset bits are those of a path of it. -/
theorem exists_path {p q : Script α} (hpaced : Paced p q) {card : Hdl.Carrier.Regs} (hidle : At .idle card.wr.base)
    (hlive : Answering d (start q card) env) :
    ∃ l r u, Runs d (start q card) env q 0 l r u ∧ (hostAt d (start q card) env u).script = .ret r ∧
      Path (Step d env) Access.reply p (viewAt d (start q card) env 0).resets l r
        (viewAt d (start q card) env u).resets ∧
      ∀ m, collect (transferAt d (start q card) env m) u = l.flatMap fun access => access.1.transfer access.2 m := by
  obtain ⟨l, r, u, hruns, -, hend⟩ := exists_runs (t := 0) hlive q hidle rfl
  refine ⟨l, r, u, hruns, hend, hruns.path.unpaced hpaced, fun m => ?_⟩
  have hview := hruns.view.trans (foldl_access l _)
  exact congrFun (congrArg View.transfers hview) m

end Svec.Carrier
