/-
  Hdl/SpiFlash.lean --- `spi_master` with the flash behind it.

  Neither is part of this repository.  The flash controller relies on the
  following: a transfer is started when the master is ready, `ready_o` falls in
  the same cycle, and the byte received is there when the master is ready again;
  and while it is selected the flash answers the command 0x0B, three address
  bytes and a dummy byte with its content from there on.  The contract says this
  of the waveforms at the ports, with the state of the transfer and of the flash
  in between; the number of cycles a transfer takes is left open.
-/
import Svec.Hdl.M25pFlash

set_option autoImplicit false

namespace Svec.Hdl

open Svec.Data Svec.Sync

/-- What the flash has received since it was selected. -/
inductive FlashCommand where
  | none
  | read0
  | read1 (a2 : Byte)
  | read2 (a2 a1 : Byte)
  | dummy (a : BitVec 24)
  | stream (a : BitVec 24)
  | other
  deriving DecidableEq, Repr, Inhabited

/-- One more byte sent to the flash. -/
def FlashCommand.receive (c : FlashCommand) (b : Byte) : FlashCommand :=
  match c with
  | .none => if b = 0x0b#8 then .read0 else .other
  | .read0 => .read1 b
  | .read1 a2 => .read2 a2 b
  | .read2 a2 a1 => .dummy (a2 ++ a1 ++ b)
  | .dummy a => .stream a
  | .stream a => .stream (a + 1#24)
  | .other => .other

/-- The state of the link: the cycles left of the transfer, the last byte received, and
what the flash has received. -/
structure SpiLink where
  busy : ℕ
  received : Byte
  command : FlashCommand
  deriving DecidableEq, Repr, Inhabited

/-- A transfer starts: the master takes a start when it is not busy. -/
def SpiLink.Starts (l : SpiLink) (i : SpiIn) : Prop := l.busy = 0 ∧ i.start = true

instance (l : SpiLink) (i : SpiIn) : Decidable (l.Starts i) := inferInstanceAs (Decidable (_ ∧ _))

/-- One cycle of the link, with a flash of the given content. -/
structure LinkStep (content : BitVec 24 → Byte) (i : SpiIn) (l l' : SpiLink) : Prop where
  busy_count : ¬ l.Starts i → l'.busy = l.busy - 1
  received_stream : ∀ a, i.cs = true → l.Starts i → l.command = .stream a → l'.received = content a
  received_hold : ¬ l.Starts i → l'.received = l.received
  command_none : i.cs = false → l'.command = .none
  command_start : i.cs = true → l.Starts i → l'.command = l.command.receive i.data
  command_hold : i.cs = true → ¬ l.Starts i → l'.command = l.command

/-- The contract of `spi_master` and a flash with the given content. -/
structure FlashAnswers (content : BitVec 24 → Byte) (i : ℕ → SpiIn) (o : ℕ → SpiOut)
    (l : ℕ → SpiLink) : Prop where
  ready : ∀ t, (o t).ready = (decide ((l t).busy = 0) && !(i t).start)
  data : ∀ t, (l t).busy = 0 → (o t).data = (l t).received
  step : ∀ t, (i t).rstN = true → LinkStep content (i t) (l t) (l (t + 1))

namespace SpiFlash

/-- A master with two cycles a bit, and the byte it sends. -/
structure State where
  link : SpiLink
  sent : Byte
  deriving DecidableEq, Repr, Inhabited

/-- What the flash sends while it receives a byte. -/
def answer (content : BitVec 24 → Byte) : FlashCommand → Byte
  | .stream a => content a
  | _ => 0xff#8

def step (content : BitVec 24 → Byte) (s : State) (i : SpiIn) : State :=
  if !i.rstN then ⟨⟨0, 0#8, .none⟩, 0#8⟩
  else if s.link.Starts i then
    { sent := i.data
      link := {
        busy := 16
        received := if i.cs then answer content s.link.command else 0xff#8
        command := if i.cs then s.link.command.receive i.data else .none } }
  else
    { s with
      link := {
        s.link with
        busy := s.link.busy - 1, command := if i.cs then s.link.command else .none } }

/-- A master and a flash that meet the contract. -/
def master (content : BitVec 24 → Byte) : Component SpiIn SpiOut where
  State := State
  step := step content
  out s i :=
    { ready := decide (s.link.busy = 0) && !i.start
      data := s.link.received
      csN := !i.cs
      sclk := decide (s.link.busy % 2 = 1)
      mosi := s.sent.getLsbD ((s.link.busy - 1) / 2) }

theorem link_step {content : BitVec 24 → Byte} {s : State} {i : SpiIn} (hr : i.rstN = true) :
    LinkStep content i s.link (step content s i).link where
  busy_count hs := by simp [step, hr, hs]
  received_stream a hc hs ha := by simp [step, hr, hs, hc, ha, answer]
  received_hold hs := by simp [step, hr, hs]
  command_none hc := by
    rw [step, hr]
    by_cases hs : s.link.Starts i <;> simp [hs, hc]
  command_start hc hs := by simp [step, hr, hs, hc]
  command_hold hc hs := by simp [step, hr, hs, hc]

theorem master_answers {content : BitVec 24 → Byte} {i : ℕ → SpiIn} {s : ℕ → State}
    (hrun : ∀ t, s (t + 1) = step content (s t) (i t)) :
    FlashAnswers content i (fun t => (master content).out (s t) (i t)) (fun t => (s t).link) where
  ready _ := rfl
  data _ _ := rfl
  step t hr := by
    rw [hrun]
    exact link_step hr

end SpiFlash

end Svec.Hdl
