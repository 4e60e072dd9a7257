/-
  Ddr/Controller.lean --- what the page access relies on in a memory controller.

  The controller takes a request in the cycle of its strobe.  It is a memory: a
  request writes or reads the word at its address, in the order of the requests.  It
  acknowledges each request once, in that order and as late as it likes, and puts the
  word that was read on its output then.

  The contract is about the waveforms at its second port; `Due` and `Settled` are the
  two states that a port is in where requests come one at a time.
-/
import Svec.Hdl.SvecBaseWr
import Mathlib.Logic.Function.Basic
import Mathlib.Data.Nat.Count

set_option autoImplicit false

namespace Svec.Ddr

open Svec.Data Svec.Hdl Svec.Hdl.SvecBaseWr

/-! ## The contract -/

/-- The word after a write of the selected bytes. -/
def selectBytes (sel : BitVec 4) (old new : Word) : Word :=
  let byte := fun k => if sel.getLsbD k then new.extractLsb' (8 * k) 8 else old.extractLsb' (8 * k) 8
  ofBytes (byte 3) (byte 2) (byte 1) (byte 0)

/-- There is a request at the port. -/
def asks (p : DdrPort) : Bool := p.cyc && p.stb

/-- What the request of a port makes of a memory. -/
def perform (p : DdrPort) (cell : Word → Word) : Word → Word :=
  if p.we then Function.update cell p.addr (selectBytes p.sel (cell p.addr) p.data) else cell

/-- What the acknowledge of a request brings: for a read, a word. -/
def reply (p : DdrPort) (cell : Word → Word) : Option Word := if p.we then none else some (cell p.addr)

section Contract

variable (cell₀ : Word → Word) (port : ℕ → DdrPort) (ans : ℕ → WbMasterIn)

/-- The memory before a cycle. -/
def cellAt : ℕ → Word → Word
  | 0 => cell₀
  | t + 1 => if asks (port t) then perform (port t) (cellAt t) else cellAt t

/-- What is owed for the requests up to a cycle, the oldest first, where `before` is owed
for the earlier ones. -/
def owedWith (t : ℕ) (before : List (Option Word)) : List (Option Word) :=
  if asks (port t) then before ++ [reply (port t) (cellAt cell₀ port t)] else before

/-- What is owed before a cycle. -/
def owed : ℕ → List (Option Word)
  | 0 => []
  | t + 1 => if (ans t).ack then (owedWith cell₀ port t (owed t)).tail else owedWith cell₀ port t (owed t)

/-- What is owed in a cycle. -/
def owing (t : ℕ) : List (Option Word) := owedWith cell₀ port t (owed cell₀ port ans t)

/-- The controller is a memory, and acknowledges each request once. -/
structure ServesMemory : Prop where
  asked : ∀ t, (ans t).ack = true → owing cell₀ port ans t ≠ []
  word : ∀ t w rest, (ans t).ack = true → owing cell₀ port ans t = some w :: rest → (ans t).dat = w
  acks : ∀ t, owing cell₀ port ans t ≠ [] → ∃ u, t ≤ u ∧ (ans u).ack = true

end Contract

theorem selectBytes_all (old new : Word) : selectBytes 0xf#4 old new = new := by
  have hall : ∀ k < 4, (0xf#4).getLsbD k = true := by decide
  simp only [selectBytes, hall 0 (by decide), hall 1 (by decide), hall 2 (by decide), hall 3 (by decide), if_true]
  exact ofBytes_extract new

/-! ## One request at a time -/

section Port

variable {cell₀ : Word → Word} {port : ℕ → DdrPort} {ans : ℕ → WbMasterIn}

/-- Nothing is owed before the cycle; the memory, and the number of requests so far. -/
structure Settled (cell₀ : Word → Word) (port : ℕ → DdrPort) (ans : ℕ → WbMasterIn) (t : ℕ)
    (cell : Word → Word) (n : ℕ) : Prop where
  cells : cellAt cell₀ port t = cell
  owed : owed cell₀ port ans t = []
  count : Nat.count (fun t => asks (port t) = true) t = n

/-- One reply is owed in the cycle; the memory and the number of requests after it. -/
structure Due (cell₀ : Word → Word) (port : ℕ → DdrPort) (ans : ℕ → WbMasterIn) (t : ℕ)
    (x : Option Word) (cell : Word → Word) (n : ℕ) : Prop where
  cells : cellAt cell₀ port (t + 1) = cell
  owing : owing cell₀ port ans t = [x]
  count : Nat.count (fun t => asks (port t) = true) (t + 1) = n

variable {t n : ℕ} {cell : Word → Word} {x : Option Word}

theorem settled_zero : Settled cell₀ port ans 0 cell₀ 0 := ⟨rfl, rfl, rfl⟩

theorem owed_succ (t : ℕ) : owed cell₀ port ans (t + 1) =
    if (ans t).ack then (owing cell₀ port ans t).tail else owing cell₀ port ans t := rfl

/-- No request, no acknowledge. -/
theorem Settled.quiet (h : Settled cell₀ port ans t cell n) (hctrl : ServesMemory cell₀ port ans)
    (hno : asks (port t) = false) : (ans t).ack = false ∧ Settled cell₀ port ans (t + 1) cell n := by
  have howing : owing cell₀ port ans t = [] := by simp [owing, owedWith, hno, h.owed]
  have hack : (ans t).ack = false := Bool.eq_false_iff.mpr fun hack => hctrl.asked t hack howing
  refine ⟨hack, ?_, ?_, ?_⟩
  · simp [cellAt, hno, h.cells]
  · simp [owed_succ, hack, howing]
  · rw [Nat.count_succ, h.count]
    simp [hno]

/-- A request makes a reply due. -/
theorem Settled.request (h : Settled cell₀ port ans t cell n) (hasks : asks (port t) = true) :
    Due cell₀ port ans t (reply (port t) cell) (perform (port t) cell) (n + 1) := by
  refine ⟨?_, ?_, ?_⟩
  · simp [cellAt, hasks, h.cells]
  · simp [owing, owedWith, hasks, h.owed, h.cells]
  · rw [Nat.count_succ, h.count]
    simp [hasks]

/-- The acknowledge brings it. -/
theorem Due.acked (h : Due cell₀ port ans t x cell n) (hctrl : ServesMemory cell₀ port ans)
    (hack : (ans t).ack = true) :
    Settled cell₀ port ans (t + 1) cell n ∧ ∀ w, x = some w → (ans t).dat = w := by
  refine ⟨⟨h.cells, ?_, h.count⟩, fun w hw => hctrl.word t w [] hack (by rw [h.owing, hw])⟩
  simp [owed_succ, hack, h.owing]

/-- Without one it stays due, where no other request comes. -/
theorem Due.waits (h : Due cell₀ port ans t x cell n) (hack : (ans t).ack = false)
    (hno : asks (port (t + 1)) = false) : Due cell₀ port ans (t + 1) x cell n := by
  have howed : owed cell₀ port ans (t + 1) = [x] := by
    rw [owed_succ, hack]
    exact h.owing
  refine ⟨?_, ?_, ?_⟩
  · rw [cellAt, hno]
    exact h.cells
  · simp [Svec.Ddr.owing, owedWith, hno, howed]
  · rw [Nat.count_succ, h.count]
    simp [hno]

theorem Due.ack_comes (h : Due cell₀ port ans t x cell n) (hctrl : ServesMemory cell₀ port ans) :
    ∃ u, t ≤ u ∧ (ans u).ack = true := hctrl.acks t (by simp [h.owing])

end Port

end Svec.Ddr
