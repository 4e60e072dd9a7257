/-
  Host/FlashRegions.lean --- which regions of the flash `program_flash` touches.

  The flash is divided into the bitstream of the System FPGA, that of the
  application FPGA, the SDB header and private data.  A sector is larger than the
  region of the SDB header: erasing it takes private data along.
-/
import Svec.Host.FlashProgram

set_option autoImplicit false

namespace Svec.Host.FlashRegions

open Svec.Data Svec.Host Svec.Prog Svec.Host.FlashTool Svec.Host.NorFlash Svec.Host.FlashCommands
open Svec.Host.FlashProgram
open Svec.Host.SvecFlasher (csrWritel_eq_write csrReadl_eq_read)

variable {m : Model} {T : Timing}

/-! ## What was done stays done -/

/-- The flash has carried out the operation. -/
def HasDone (op : Op) (h : Proc (flashCard m T)) : Prop := op ∈ (nor h).ops

theorem execute_ops {f : Nor} {op : Op} (h : op ∈ f.ops) : op ∈ (f.execute m T).ops := by
  unfold Nor.execute
  (repeat' split) <;> first | exact h | exact List.mem_append_left _ h

theorem writeFar_ops {c : Card} {op : Op} (h : op ∈ c.nor.ops) (v : Word) :
    op ∈ (c.writeFar m T v).nor.ops := by
  have hselect : ∀ cs, op ∈ (c.nor.select m T cs).ops := by
    intro cs
    unfold Nor.select
    (repeat' split)
    · exact h
    · exact h
    · exact execute_ops h
  unfold Card.writeFar
  simp only
  split
  · unfold Card.transfer
    simp only
    split
    · exact hselect _
    · exact hselect _
  · exact hselect _

section Keeps

variable {op : Op}

theorem keeps_writel (v : Word) : Keeps (HasDone (m := m) (T := T) op) (writel v regFar) :=
  .act fun h hop => by
    rw [csrWritel_eq_write]
    exact writeFar_ops hop v

theorem keeps_readl : Keeps (HasDone (m := m) (T := T) op) (readl regFar) :=
  .act fun h hop => by
    rw [csrReadl_eq_read]
    exact hop

theorem keeps_usleep (us : ℕ) : Keeps (HasDone (m := m) (T := T) op) (usleep us) :=
  .act fun _ hop => hop

theorem keeps_spiCs (cs : Bool) : Keeps (HasDone (m := m) (T := T) op) (spiCs cs) :=
  (keeps_writel _).bind fun _ => keeps_usleep 1

theorem keeps_awaitReady : Keeps (HasDone (m := m) (T := T) op) awaitReady :=
  .loop (fun _ => keeps_readl.bind fun _ => .pure _) ()

theorem keeps_spiRead8 : Keeps (HasDone (m := m) (T := T) op) spiRead8 :=
  (keeps_writel _).bind fun _ => keeps_awaitReady.bind fun _ => .pure _

theorem keeps_spiWrite8 (b : Byte) : Keeps (HasDone (m := m) (T := T) op) (spiWrite8 b) :=
  (keeps_writel _).bind fun _ => keeps_awaitReady.bind fun _ => .pure _

theorem keeps_flashWaitCompletion : Keeps (HasDone (m := m) (T := T) op) flashWaitCompletion := by
  refine .loop (fun notDone => ?_) true
  unfold waitRound
  split
  · exact (keeps_spiCs _).bind fun _ => (keeps_spiWrite8 _).bind fun _ => keeps_spiRead8.bind fun _ =>
      (keeps_spiCs _).bind fun _ => .pure _
  · exact .pure _

theorem keeps_flashEraseSector (addr : Word) :
    Keeps (HasDone (m := m) (T := T) op) (flashEraseSector addr) :=
  (keeps_spiCs _).bind fun _ => (keeps_spiWrite8 _).bind fun _ => (keeps_spiWrite8 _).bind fun _ =>
    (keeps_spiWrite8 _).bind fun _ => (keeps_spiWrite8 _).bind fun _ => (keeps_spiCs _).bind fun _ =>
      keeps_flashWaitCompletion

theorem keeps_flashWriteEnable : Keeps (HasDone (m := m) (T := T) op) flashWriteEnable :=
  (keeps_spiCs _).bind fun _ => (keeps_spiWrite8 _).bind fun _ => keeps_spiCs _

theorem keeps_flashProgramPage (addr : Word) (data : ℕ → Byte) (size : ℕ) :
    Keeps (HasDone (m := m) (T := T) op) (flashProgramPage addr data size) := by
  have hdata : ∀ i, Keeps (HasDone (m := m) (T := T) op) (dataRound data size i) := by
    intro i
    unfold dataRound
    split
    · exact (keeps_spiWrite8 _).bind fun _ => .pure _
    · exact .pure _
  have hfill : ∀ i, Keeps (HasDone (m := m) (T := T) op) (fillRound i) := by
    intro i
    unfold fillRound
    split
    · exact (keeps_spiWrite8 _).bind fun _ => .pure _
    · exact .pure _
  exact (keeps_spiCs _).bind fun _ => (keeps_spiWrite8 _).bind fun _ => (keeps_spiWrite8 _).bind fun _ =>
    (keeps_spiWrite8 _).bind fun _ => (keeps_spiWrite8 _).bind fun _ =>
      (Keeps.loop hdata 0).bind fun i => (Keeps.loop hfill i).bind fun _ => (keeps_spiCs _).bind fun _ =>
        keeps_flashWaitCompletion

theorem keeps_flashProgram (malloc : Bool) (addr : Word) (data : Buffer) (size : Int) (flashId : Word) :
    Keeps (HasDone (m := m) (T := T) op) (flashProgram malloc addr data size flashId) := by
  have herase : ∀ erased at', Keeps (HasDone (m := m) (T := T) op) (eraseOnce erased at') := by
    intro erased at'
    unfold eraseOnce
    split
    · exact .pure _
    · exact keeps_flashWriteEnable.bind fun _ => keeps_flashEraseSector _
  have hround : ∀ sectorSize a, Keeps (HasDone (m := m) (T := T) op) (programRound addr data size sectorSize a) := by
    intro sectorSize a
    unfold programRound
    simp only
    split
    · split
      · exact .stop
      · exact (herase _ _).bind fun _ => keeps_flashWriteEnable.bind fun _ =>
          (keeps_flashProgramPage _ _ _).bind fun _ => .pure _
    · exact .pure _
  have hverify : ∀ n, Keeps (HasDone (m := m) (T := T) op) (verifyRound data size n) := by
    intro n
    unfold verifyRound
    split
    · exact keeps_spiRead8.bind fun _ => .pure _
    · exact .pure _
  unfold flashProgram
  split
  · exact .pure _
  · split
    · exact .pure _
    · exact (Keeps.loop (hround _) _).bind fun _ => (keeps_spiCs _).bind fun _ =>
        (keeps_spiWrite8 _).bind fun _ => (keeps_spiWrite8 _).bind fun _ => (keeps_spiWrite8 _).bind fun _ =>
          (keeps_spiWrite8 _).bind fun _ => (Keeps.loop hverify 0).bind fun _ => (keeps_spiCs _).bind fun _ =>
            .pure _

end Keeps

/-! ## The regions -/

/-- The regions that programming the application bitstream is about: `0x100000 - 0x5fffff` for
the bitstream, and `0x600000 - 0x600fff` for the SDB. -/
def InRegion (x : BitVec 24) : Prop := 0x100000 ≤ x.toNat ∧ x.toNat < 0x601000

/-- `program_flash` of an application bitstream erases and programs bytes of its regions only,
and the others keep their contents. -/
def StaysInRegion (m : Model) (T : Timing) (malloc : ℕ → Bool) (buf : Buffer) (size : ℕ) (confirm : String)
    (mem : Memory) (wel : Bool) : Prop :=
  Finally (nor (m := m) (T := T)) (programFlash malloc buf size false confirm) (idle mem wel []) fun h =>
    (∀ op ∈ (nor h).ops, ∀ x, op.Touches m x → InRegion x) ∧
      ∀ x, ¬ InRegion x → (nor h).mem x = mem x

section Program

variable {mem : Memory} {wel : Bool} {ops : List Op}

/-- The SPI master is ready again after a tenth of a second. -/
theorem spiTestPresence_ends : Ends (nor (m := m) (T := T)) spiTestPresence (idle mem wel ops) true
    (idle mem wel ops) := by
  refine .coarsen Card.nor fun c hc => ⟨_, ?_, (writel_ends c _).bind ((usleep_ends _ 100000).bind
    ((readl_ends _).bind (.ret ?_ rfl)))⟩
  · have hnor : (c.writeFar m T (farXfer ||| farDataW 0xff#8)).nor = idle mem wel ops := by
      unfold Card.writeFar
      rw [hc]
      rfl
    exact hnor
  · rw [far_ready]
    have hwait : (c.writeFar m T (farXfer ||| farDataW 0xff#8)).wait = T.transfer c.transfers := rfl
    have hle := T.transfer_le c.transfers
    simp only [Card.delay, hwait, decide_eq_true_eq]
    omega

/-- The SDB header, as `program_flash` writes it. -/
def sdbRange : FlashProgram.Range where
  addr := bootloaderSdbBase
  data := ⟨sdbHeader, fun _ => 0#8⟩
  aligned := by decide +kernel
  fits := by decide +kernel

/-- Its sector reaches into the private data. -/
theorem sdbRange_meets (m : Model) : sdbRange.Meets m 0x601000 := by
  refine ⟨0, by decide +kernel, ?_⟩
  cases m <;> decide +kernel

theorem known (m : Model) : ¬ (m.id ≠ idM25p128 ∧ m.id ≠ idMt25ql128) := by
  cases m <;> decide

/-- Whatever comes after the SDB header, its sector was erased. -/
theorem touches_private (malloc : ℕ → Bool) (hmalloc : malloc 0 = true) (buf : Buffer) (size : ℕ)
    (confirm : String) :
    Finally (nor (m := m) (T := T)) (programFlash malloc buf size false confirm) (idle mem wel []) fun h =>
      ∃ op ∈ (nor h).ops, op.Touches m 0x601000#24 := by
  obtain ⟨mem', wel', new, hends, -, -, htouch⟩ := flashProgram_ends (m := m) (T := T) sdbRange mem wel []
  obtain ⟨op, hop, hprivate⟩ := (htouch 0x601000#24).mpr (sdbRange_meets m)
  refine Finally.mono (Q := HasDone op) ?_ fun h hop => ⟨op, hop, hprivate⟩
  refine .bind spiTestPresence_ends (.bind flashReadId_ends ?_)
  rw [if_neg (known m), hmalloc]
  refine .bind hends ?_
  rw [if_pos rfl]
  exact (keeps_flashProgram _ _ _ _ _).finally fun h hlook => by
    rw [HasDone, hlook]
    exact List.mem_append_right _ hop

theorem flashProgram_nomem (f : Nor) (addr : Word) (data : Buffer) (size : Int) :
    Ends (nor (m := m) (T := T)) (flashProgram false addr data size m.id) f (-enomem) f := by
  have hsector : sectorSizeOf m.id = some m.sectorSize := by cases m <;> rfl
  unfold flashProgram
  rw [hsector]
  exact .pure _ _

/-- Without the sector map for the SDB header nothing is done. -/
theorem untouched (malloc : ℕ → Bool) (hmalloc : malloc 0 = false) (buf : Buffer) (size : ℕ)
    (confirm : String) : Ends (nor (m := m) (T := T)) (programFlash malloc buf size false confirm)
      (idle mem wel ops) (-enomem) (idle mem wel ops) := by
  refine spiTestPresence_ends.bind (flashReadId_ends.bind ?_)
  rw [if_neg (known m), hmalloc]
  refine (flashProgram_nomem _ _ _ _).bind ?_
  rw [if_neg (by decide)]
  exact .pure _ _

end Program

/-- Private data is in no region of the application bitstream. -/
theorem private_outside : ¬ InRegion 0x601000#24 := fun h => absurd h.2 (by decide)

/-- With the sector map the erasure of the SDB header takes private data along. -/
theorem not_staysInRegion (m : Model) (T : Timing) (malloc : ℕ → Bool) (hmalloc : malloc 0 = true)
    (buf : Buffer) (size : ℕ) (confirm : String) (mem : Memory) (wel : Bool) :
    ¬ StaysInRegion m T malloc buf size confirm mem wel := by
  intro hstays
  let h : Proc (flashCard m T) := ⟨⟨idle mem wel [], 0, 0#8, 0⟩, []⟩
  obtain ⟨k, hk⟩ := hstays h rfl
  obtain ⟨n, hn⟩ := touches_private (T := T) malloc hmalloc buf size confirm h rfl
  obtain ⟨op, hop, htouch⟩ := hn (max k n) (Nat.le_max_right k n)
  exact private_outside ((hk (max k n) (Nat.le_max_left k n)).1 op hop _ htouch)

/-- A bitstream of one byte. -/
theorem private_data_erased : ¬ ∀ (m : Model) (T : Timing) (malloc : ℕ → Bool) (buf : Buffer) (size : ℕ)
    (confirm : String) (mem : Memory) (wel : Bool), StaysInRegion m T malloc buf size confirm mem wel :=
  fun hall => not_staysInRegion .mt25ql128 slowCard (fun _ => true) rfl ⟨[1#8], fun _ => 0#8⟩ 1 ""
    (fun _ => 0#8) false (hall _ _ _ _ _ _ _ _)

/-- For every bitstream, chip and contents, `program_flash` stays in the regions of the
application bitstream exactly if it cannot even allocate the sector map for the SDB header. -/
theorem stays_in_region_iff (m : Model) (T : Timing) (malloc : ℕ → Bool) (buf : Buffer) (size : ℕ)
    (confirm : String) (mem : Memory) (wel : Bool) :
    StaysInRegion m T malloc buf size confirm mem wel ↔ malloc 0 = false := by
  constructor
  · intro hstays
    cases hmalloc : malloc 0 with
    | false => rfl
    | true => exact absurd hstays (not_staysInRegion m T malloc hmalloc buf size confirm mem wel)
  · intro hmalloc
    refine (untouched malloc hmalloc buf size confirm).finally fun h hlook => ?_
    rw [hlook]
    exact ⟨fun op hop => absurd hop List.not_mem_nil, fun _ _ => rfl⟩

end Svec.Host.FlashRegions
