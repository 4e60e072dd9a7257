/-
  Host/Bus.lean --- the loader registers as the host programs reach them.

  A host program is a function on the state of the machine it runs on: the card,
  the bus and the clock.  That machine is a parameter; a program's own trace is
  the list of its bus writes, and what it pushed into the FIFO is decoded from
  that list as the register block decodes it: a write of `FIFO_R0` sets the size
  and last flags, a write of `FIFO_R1` pushes an entry.
-/
import Svec.Data.Bits
import Svec.Hdl.Fifo

set_option autoImplicit false

namespace Svec.Host

open Svec.Data Svec.Hdl

/-! ## Registers -/

/-- `XLDR_REG_CSR`. -/
def regCsr : Word := 0x00#32
/-- `XLDR_REG_BTRIGR`. -/
def regBtrigr : Word := 0x04#32
/-- `XLDR_REG_IDR`. -/
def regIdr : Word := 0x0c#32
/-- `XLDR_REG_FIFO_R0`. -/
def regFifoR0 : Word := 0x10#32
/-- `XLDR_REG_FIFO_R1`. -/
def regFifoR1 : Word := 0x14#32
/-- `XLDR_REG_FIFO_CSR`. -/
def regFifoCsr : Word := 0x18#32

/-- `XLDR_CSR_START`. -/
def csrStart : Word := 0x01#32
/-- `XLDR_CSR_DONE`, as a bit number. -/
def csrDoneBit : ℕ := 1
/-- `XLDR_CSR_ERROR`, as a bit number. -/
def csrErrorBit : ℕ := 2
/-- `XLDR_CSR_MSBF`. -/
def csrMsbf : Word := 0x10#32
/-- `XLDR_CSR_SWRST`. -/
def csrSwrst : Word := 0x20#32
/-- `XLDR_CSR_EXIT`. -/
def csrExit : Word := 0x40#32
/-- `XLDR_FIFO_R0_XLAST`. -/
def fifoR0Xlast : Word := 0x04#32
/-- `XLDR_FIFO_CSR_FULL`, as a bit number. -/
def fifoCsrFullBit : ℕ := 16

/-! ## The machine -/

/-- What a host program runs on.  A bus access, a delay and a look at the clock each take
the machine from one state to another; anything may happen meanwhile. -/
structure Machine where
  State : Type
  /-- A 32-bit read of a loader register, as the card puts it on the bus. -/
  busRead : State → Word → Word × State
  /-- A 32-bit write of a loader register: the value on the bus and the register. -/
  busWrite : State → Word → Word → State
  mdelay : State → ℕ → State
  usleepRange : State → ℕ → ℕ → State
  getJiffies64 : State → BitVec 64 × State
  usecsToJiffies : BitVec 32 → BitVec 64

/-- How full the bitstream FIFO of the card is in each state of the machine.  The host
program is the only one that pushes; the loader may take entries at any time. -/
structure LoaderFifo (M : Machine) where
  fill : M.State → ℕ
  /-- `FIFO_CSR.FULL` tells whether there were 256 entries at a moment of the read after
  which there can only be fewer. -/
  full_read : ∀ s, ∃ f, fill (M.busRead s regFifoCsr).2 ≤ f ∧ f ≤ 256 ∧
    ((M.busRead s regFifoCsr).1.getLsbD fifoCsrFullBit = true ↔ f = 256)
  /-- Only a write of `FIFO_R1` pushes. -/
  fill_write : ∀ s v a, a ≠ regFifoR1 → fill (M.busWrite s v a) ≤ fill s

/-- A write on the bus and the state of the machine when it was made. -/
structure BusWrite (M : Machine) where
  before : M.State
  value : Word
  addr : Word

/-- A running host program: the machine, and the writes made so far. -/
structure Proc (M : Machine) where
  st : M.State
  log : List (BusWrite M)

variable {M : Machine}

def Proc.read (h : Proc M) (a : Word) : Word × Proc M :=
  ((M.busRead h.st a).1, { h with st := (M.busRead h.st a).2 })

def Proc.write (h : Proc M) (v a : Word) : Proc M :=
  { st := M.busWrite h.st v a, log := h.log ++ [⟨h.st, v, a⟩] }

def Proc.mdelay (h : Proc M) (ms : ℕ) : Proc M := { h with st := M.mdelay h.st ms }

def Proc.usleepRange (h : Proc M) (lo hi : ℕ) : Proc M := { h with st := M.usleepRange h.st lo hi }

def Proc.getJiffies64 (h : Proc M) : BitVec 64 × Proc M :=
  ((M.getJiffies64 h.st).1, { h with st := (M.getJiffies64 h.st).2 })

/-! ## What is pushed -/

/-- An entry pushed into the FIFO, and the state of the machine when it was. -/
structure Push (M : Machine) where
  before : M.State
  entry : FifoEntry

/-- The entry that a write of `FIFO_R1` pushes after one of `FIFO_R0`. -/
def fifoEntry (r0 r1 : Word) : FifoEntry := ⟨r0.extractLsb' 0 2, r0.getLsbD 2, r1⟩

/-- The entries that a list of writes pushes, where `FIFO_R0` holds `r0` before it. -/
def pushes (r0 : Word) : List (BusWrite M) → List (Push M)
  | [] => []
  | w :: l =>
    if w.addr = regFifoR0 then pushes w.value l
    else if w.addr = regFifoR1 then ⟨w.before, fifoEntry r0 w.value⟩ :: pushes r0 l
    else pushes r0 l

/-- The writes `l` push `ps`, whatever is written before and after. -/
def Emits (l : List (BusWrite M)) (ps : List (Push M)) : Prop :=
  ∀ r0, ∃ r0', ∀ l', pushes r0 (l ++ l') = ps ++ pushes r0' l'

/-- From `h` to `h'` the program pushes `ps`. -/
def Runs (h h' : Proc M) (ps : List (Push M)) : Prop := ∃ l, h'.log = h.log ++ l ∧ Emits l ps

theorem emits_nil : Emits ([] : List (BusWrite M)) [] := fun r0 => ⟨r0, fun _ => rfl⟩

theorem Emits.append {l₁ l₂ : List (BusWrite M)} {ps₁ ps₂ : List (Push M)} (h₁ : Emits l₁ ps₁)
    (h₂ : Emits l₂ ps₂) : Emits (l₁ ++ l₂) (ps₁ ++ ps₂) := by
  intro r0
  obtain ⟨r1, hr1⟩ := h₁ r0
  obtain ⟨r2, hr2⟩ := h₂ r1
  exact ⟨r2, fun l' => by rw [List.append_assoc, hr1, hr2, List.append_assoc]⟩

theorem Emits.pushes_eq {l : List (BusWrite M)} {ps : List (Push M)} (h : Emits l ps) (r0 : Word) :
    pushes r0 l = ps := by
  obtain ⟨r1, hr1⟩ := h r0
  have := hr1 []
  simpa [pushes] using this

theorem Runs.refl (h : Proc M) : Runs h h [] := ⟨[], by simp, emits_nil⟩

theorem Runs.trans {h₁ h₂ h₃ : Proc M} {ps qs : List (Push M)} (h : Runs h₁ h₂ ps)
    (h' : Runs h₂ h₃ qs) : Runs h₁ h₃ (ps ++ qs) := by
  obtain ⟨l, hl, hps⟩ := h
  obtain ⟨l', hl', hqs⟩ := h'
  exact ⟨l ++ l', by rw [hl', hl, List.append_assoc], hps.append hqs⟩

theorem runs_of_log {h h' : Proc M} (hlog : h'.log = h.log) : Runs h h' [] :=
  ⟨[], by simp [hlog], emits_nil⟩

@[simp] theorem read_log (h : Proc M) (a : Word) : (h.read a).2.log = h.log := rfl
@[simp] theorem mdelay_log (h : Proc M) (ms : ℕ) : (h.mdelay ms).log = h.log := rfl
@[simp] theorem usleepRange_log (h : Proc M) (lo hi : ℕ) : (h.usleepRange lo hi).log = h.log := rfl
@[simp] theorem getJiffies64_log (h : Proc M) : h.getJiffies64.2.log = h.log := rfl

/-- A write elsewhere pushes nothing. -/
theorem runs_write (h : Proc M) (v : Word) {a : Word} (h0 : a ≠ regFifoR0) (h1 : a ≠ regFifoR1) :
    Runs h (h.write v a) [] := by
  refine ⟨_, rfl, fun r0 => ⟨r0, fun l' => ?_⟩⟩
  simp [pushes, h0, h1]

/-- `FIFO_R0` and then `FIFO_R1`: one entry. -/
theorem runs_write_fifo (h : Proc M) (r0 r1 : Word) :
    Runs h ((h.write r0 regFifoR0).write r1 regFifoR1)
      [⟨(h.write r0 regFifoR0).st, fifoEntry r0 r1⟩] := by
  refine ⟨[⟨h.st, r0, regFifoR0⟩, ⟨(h.write r0 regFifoR0).st, r1, regFifoR1⟩], ?_, fun r => ⟨r0, fun l' => ?_⟩⟩
  · simp [Proc.write]
  · have hne : regFifoR1 ≠ regFifoR0 := by decide
    simp [pushes, hne]

/-- After `FULL` was read as 0 there is room for the next entry. -/
theorem LoaderFifo.room (L : LoaderFifo M) {h : Proc M} {r0 : Word}
    (hfull : (h.read regFifoCsr).1.getLsbD fifoCsrFullBit = false) :
    L.fill ((h.read regFifoCsr).2.write r0 regFifoR0).st < 256 := by
  obtain ⟨f, hle, hbound, hiff⟩ := L.full_read h.st
  have hne : f ≠ 256 := by
    intro hf
    have hone : (h.read regFifoCsr).1.getLsbD fifoCsrFullBit = true := hiff.mpr hf
    rw [hfull] at hone
    exact absurd hone (by decide)
  have hwrite : L.fill ((h.read regFifoCsr).2.write r0 regFifoR0).st ≤
      L.fill (M.busRead h.st regFifoCsr).2 := L.fill_write _ _ _ (by decide)
  omega

/-- A card in bootloader mode whose loader takes every entry at once and is done with it,
under a clock that stands still. -/
def attentiveCard : Machine where
  State := Unit
  busRead _ a :=
    (if a = regIdr then 0x53564543#32 else if a = regCsr then 0x2#32 else 0#32, ())
  busWrite _ _ _ := ()
  mdelay _ _ := ()
  usleepRange _ _ _ := ()
  getJiffies64 _ := (0#64, ())
  usecsToJiffies us := us.setWidth 64

/-- Its FIFO is always empty. -/
def attentiveCard_fifo : LoaderFifo attentiveCard where
  fill _ := 0
  full_read | () => ⟨0, Nat.le_refl 0, by decide, by decide⟩
  fill_write _ _ _ _ := Nat.le_refl 0

/-! ## Buffers and words of a little-endian host -/

/-- A buffer of the host: its bytes, and what lies in memory after it. -/
structure Buffer where
  bytes : List Byte
  beyond : ℕ → Byte

/-- The byte at an offset of the buffer. -/
def Buffer.byte (b : Buffer) (i : ℕ) : Byte := b.bytes[i]?.getD (b.beyond i)

/-- The word that a little-endian host loads from an offset of the buffer. -/
def Buffer.load (b : Buffer) (i : ℕ) : Word :=
  ofBytes (b.byte (i + 3)) (b.byte (i + 2)) (b.byte (i + 1)) (b.byte i)

/-- `htonl` of a little-endian host. -/
def htonl (w : Word) : Word := byteSwap w

theorem beBytes_htonl_load (b : Buffer) (i : ℕ) :
    beBytes (htonl (b.load i)) = [b.byte i, b.byte (i + 1), b.byte (i + 2), b.byte (i + 3)] :=
  beBytes_byteSwap_ofBytes _ _ _ _

/-- The loaded word, sent most significant byte first, starts with the buffer's bytes. -/
theorem take_htonl_load (b : Buffer) {i n : ℕ} (hn : n ≤ 4) (hi : i + n ≤ b.bytes.length) :
    (beBytes (htonl (b.load i))).take n = (b.bytes.drop i).take n := by
  have hbyte : ∀ k (hk : i + k < b.bytes.length), b.byte (i + k) = b.bytes[i + k] := by
    intro k hk
    unfold Buffer.byte
    rw [List.getElem?_eq_getElem hk]
    rfl
  apply List.ext_getElem
  · simp
    omega
  · intro k hk hk'
    rw [List.length_take] at hk hk'
    have hkn : k < n := by omega
    have hkl : i + k < b.bytes.length := by omega
    rw [List.getElem_take, List.getElem_take, List.getElem_drop, ← hbyte k hkl]
    have hk4 : k < 4 := by omega
    simp only [beBytes_htonl_load]
    match k, hk4 with
    | 0, _ => rfl
    | 1, _ => rfl
    | 2, _ => rfl
    | 3, _ => rfl
    | k + 4, h => omega

/-- The next bytes of a buffer, a word or what is left of it. -/
theorem chunk_range {len i n : ℕ} (hlt : i < len) (hn : n = if len - i > 4 then 4 else len - i) :
    1 ≤ n ∧ n ≤ 4 ∧ i + n ≤ len ∧ (4 ∣ i → 4 ∣ i + n ∨ len ≤ i + n) := by
  rw [hn]
  split <;> omega

end Svec.Host
