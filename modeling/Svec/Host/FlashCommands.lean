/-
  Host/FlashCommands.lean --- what each command of the flasher does to the flash.

  A routine of the flasher ends however long the card and the flash take, and the
  state of the flash that it leaves does not depend on that: the lemmas see the
  card through the flash on it.
-/
import Svec.Host.NorFlash

set_option autoImplicit false

namespace Svec.Host.FlashCommands

open Svec.Data Svec.Host Svec.Prog Svec.Host.FlashTool Svec.Host.NorFlash
open Svec.Host.SvecFlasher (csrWritel_eq_write csrReadl_eq_read)

variable {m : Model} {T : Timing}

/-- The card of a running program. -/
def card (h : Proc (flashCard m T)) : Card := h.st

/-- The flash on it. -/
def nor (h : Proc (flashCard m T)) : Nor := (card h).nor

/-! ## Accesses -/

theorem writel_ends (c : Card) (v : Word) :
    Ends (card (m := m) (T := T)) (writel v regFar) c () (c.writeFar m T v) :=
  .act fun h hc => ⟨rfl, by rw [csrWritel_eq_write, ← hc]; rfl⟩

theorem readl_ends (c : Card) :
    Ends (card (m := m) (T := T)) (readl regFar) c c.far (c.delay 1) :=
  .act fun h hc => by rw [csrReadl_eq_read, ← hc]; exact ⟨rfl, rfl⟩

theorem usleep_ends (c : Card) (us : ℕ) :
    Ends (card (m := m) (T := T)) (usleep us) c () (c.delay us) :=
  .act fun h hc => ⟨rfl, by rw [← hc]; rfl⟩

theorem far_ready (c : Card) : c.far.getLsbD farReadyBit = decide (c.wait = 0) := by
  by_cases h : c.wait = 0 <;> simp [Card.far, farReadyBit, h]

theorem farDataR_far (c : Card) : farDataR c.far = c.data := by
  by_cases h : c.wait = 0 <;> simp [farDataR, Card.far, h]

/-- A look at the register before the transfer is over, or after it. -/
theorem readyRound_ends (c : Card) : Ends (card (m := m) (T := T)) (readyRound ()) c
    (if c.wait = 0 then .inr c.far else .inl ()) (c.delay 1) := by
  refine (readl_ends c).bind ?_
  rw [far_ready]
  simpa using Ends.pure _ _

/-- The poll ends when the transfer is over, with what was received. -/
theorem awaitReady_ends (c : Card) : ∃ far, farDataR far = c.data ∧
    Ends (card (m := m) (T := T)) awaitReady c far { c with wait := 0 } := by
  suffices hrounds : ∃ far, farDataR far = c.data ∧
      Rounds (card (m := m) (T := T)) readyRound () c far { c with wait := 0 } by
    obtain ⟨far, hdata, hrounds⟩ := hrounds
    exact ⟨far, hdata, hrounds.ends⟩
  obtain ⟨n, hn⟩ : ∃ n, c.wait = n := ⟨_, rfl⟩
  have hround := readyRound_ends (m := m) (T := T) c
  induction n generalizing c with
  | zero =>
    refine ⟨c.far, farDataR_far c, .done ?_⟩
    rw [if_pos hn] at hround
    have hwait : c.delay 1 = { c with wait := 0 } := by simp [Card.delay, hn]
    exact hwait ▸ hround
  | succ n ih =>
    rw [if_neg (by omega)] at hround
    obtain ⟨far, hdata, hrest⟩ := ih (c.delay 1) (by simp [Card.delay, hn]) (readyRound_ends _)
    exact ⟨far, hdata, .again hround hrest⟩

/-- The word that starts a transfer with the flash selected. -/
theorem xfer_word (b : Byte) : (farXfer ||| farDataW b ||| farCs).getLsbD 10 = true ∧
    (farXfer ||| farDataW b ||| farCs).getLsbD 8 = true ∧
    (farXfer ||| farDataW b ||| farCs).setWidth 8 = b := by
  refine ⟨by simp [farXfer, farDataW, farCs], by simp [farXfer, farDataW, farCs], ?_⟩
  simp [farXfer, farDataW, farCs]

/-- The write that starts a transfer leaves the flash selected. -/
theorem writeFar_xfer {c : Card} (hcs : c.nor.cs = true) (b : Byte) :
    c.writeFar m T (farXfer ||| farDataW b ||| farCs) = c.transfer m T b := by
  obtain ⟨h10, h8, hb⟩ := xfer_word b
  unfold Card.writeFar
  rw [h10, h8, hb, Nor.select, if_pos hcs.symm]
  rfl

/-! ## Through the flash -/

section Flash

variable {f : Nor}

theorem spiCs_ends (f : Nor) (cs : Bool) :
    Ends (nor (m := m) (T := T)) (spiCs cs) f () (f.select m T cs) := by
  refine .coarsen Card.nor fun c hc => ⟨_, ?_, (writel_ends c _).bind (usleep_ends _ 1)⟩
  subst hc
  cases cs <;> rfl

theorem sleep_ends (f : Nor) (us : ℕ) : Ends (nor (m := m) (T := T)) (usleep us) f () f :=
  .coarsen Card.nor fun c hc => ⟨c.delay us, hc, usleep_ends c us⟩

/-- A byte that goes to the selected flash, and the one that comes back. -/
theorem spiWrite8_ends (hcs : f.cs = true) (b : Byte) :
    Ends (nor (m := m) (T := T)) (spiWrite8 b) f () (f.receive b) := by
  refine .coarsen Card.nor fun c hc => ?_
  subst hc
  obtain ⟨far, -, hready⟩ := awaitReady_ends (m := m) (T := T) (c.transfer m T b)
  rw [← writeFar_xfer hcs] at hready
  refine ⟨_, ?_, (writel_ends c _).bind (hready.bind (.pure () _))⟩
  simp [writeFar_xfer hcs, Card.transfer, hcs]

theorem spiRead8_ends (hcs : f.cs = true) :
    Ends (nor (m := m) (T := T)) spiRead8 f (f.answer m) (f.receive 0xff#8) := by
  refine .coarsen Card.nor fun c hc => ?_
  subst hc
  obtain ⟨far, hdata, hready⟩ := awaitReady_ends (m := m) (T := T) (c.transfer m T 0xff#8)
  have hanswer : farDataR far = c.nor.answer m := by simp [hdata, Card.transfer, hcs]
  rw [← writeFar_xfer hcs] at hready
  refine ⟨_, ?_, (writel_ends c _).bind (hready.bind (.ret hanswer rfl))⟩
  simp [writeFar_xfer hcs, Card.transfer, hcs]

end Flash

/-! ## Commands -/

/-- A flash that waits for a command. -/
def idle (mem : Memory) (wel : Bool) (ops : List Op) : Nor := ⟨mem, wel, 0, false, [], ops⟩

/-- A flash in the middle of a command. -/
def taking (mem : Memory) (wel : Bool) (received : List Byte) (ops : List Op) : Nor :=
  ⟨mem, wel, 0, true, received, ops⟩

section Commands

variable {mem : Memory} {wel : Bool} {ops : List Op}

theorem select_ends : Ends (nor (m := m) (T := T)) (spiCs true) (idle mem wel ops) () (taking mem wel [] ops) :=
  spiCs_ends _ _

theorem byte_ends (received : List Byte) (b : Byte) : Ends (nor (m := m) (T := T)) (spiWrite8 b)
    (taking mem wel received ops) () (taking mem wel (received ++ [b]) ops) := by
  have h := spiWrite8_ends (m := m) (T := T) (f := taking mem wel received ops) rfl b
  simpa [Nor.receive, taking] using h

theorem read_ends (mem : Memory) (wel : Bool) (ops : List Op) (received : List Byte) : Ends (nor (m := m) (T := T)) spiRead8
    (taking mem wel received ops) ((taking mem wel received ops).answer m)
    (taking mem wel (received ++ [0xff#8]) ops) := by
  have h := spiRead8_ends (m := m) (T := T) (f := taking mem wel received ops) rfl
  simpa [Nor.receive, taking] using h

theorem flashWriteEnable_ends : Ends (nor (m := m) (T := T)) flashWriteEnable (idle mem wel ops) ()
    (idle mem true ops) :=
  select_ends.bind ((byte_ends [] flashWren).bind (spiCs_ends _ false))

/-- Status reads until the operation is over. -/
theorem flashWaitCompletion_ends (busy : ℕ) : Ends (nor (m := m) (T := T)) flashWaitCompletion
    ⟨mem, wel, busy, false, [], ops⟩ () (idle mem wel ops) := by
  refine Rounds.ends ?_
  have hround : ∀ busy, Ends (nor (m := m) (T := T)) (waitRound true) ⟨mem, wel, busy, false, [], ops⟩
      (.inl (decide (busy ≠ 0))) ⟨mem, wel, busy - 1, false, [], ops⟩ := by
    intro busy
    refine (spiCs_ends _ true).bind ((spiWrite8_ends rfl flashRdsr).bind ((spiRead8_ends rfl).bind
      ((spiCs_ends _ false).bind (.ret ?_ ?_))))
    · by_cases hb : busy = 0 <;> cases wel <;> simp [hb, Nor.select, Nor.receive, Nor.answer]
    · by_cases hb : busy - 1 = 0 <;> simp [hb, Nor.select, Nor.receive, Nor.execute]
  induction busy with
  | zero => exact .again (hround 0) (.done (.pure _ _))
  | succ busy ih => exact .again (hround (busy + 1)) ih

/-- The address that the flash gets: the lower 24 bits. -/
theorem addrByte_append (addr : Word) :
    addrByte addr 16 ++ addrByte addr 8 ++ addrByte addr 0 = addr.setWidth 24 := by
  have hbyte : ∀ k, k ≤ 16 → addrByte addr k = (addr.setWidth 24).extractLsb' k 8 := by
    intro k hk
    apply BitVec.eq_of_getLsbD_eq
    intro j hj
    have hmask : (0xff#32).getLsbD j = true := by
      match j, hj with
      | 0, _ | 1, _ | 2, _ | 3, _ | 4, _ | 5, _ | 6, _ | 7, _ => rfl
    have hlt : k + j < 24 := by omega
    simp only [addrByte, BitVec.getLsbD_setWidth, BitVec.getLsbD_and, BitVec.getLsbD_ushiftRight,
      BitVec.getLsbD_extractLsb', hmask, hj, hlt, decide_true, Bool.and_true, Bool.true_and]
  rw [hbyte 16 (by decide), hbyte 8 (by decide), hbyte 0 (by decide), address_bytes]

theorem flashEraseSector_ends (addr : Word) : Ends (nor (m := m) (T := T)) (flashEraseSector addr)
    (idle mem true ops) ()
    (idle (Op.apply m (.erase (addr.setWidth 24)) mem) false (ops ++ [.erase (addr.setWidth 24)])) := by
  rw [← addrByte_append]
  exact select_ends.bind ((byte_ends [] _).bind ((byte_ends _ _).bind ((byte_ends _ _).bind
    ((byte_ends _ _).bind ((spiCs_ends _ false).bind (flashWaitCompletion_ends (T.busy ops.length)))))))

/-- A loop that sends the bytes `data i` up to a bound. -/
theorem send_ends {α : Type} (mem : Memory) (wel : Bool) (ops : List Op) (data : ℕ → Byte) (size : ℕ)
    (result : ℕ → α) {i : ℕ} (hi : i ≤ size) (received : List Byte) :
    Ends (nor (m := m) (T := T)) (loop (fun i =>
      if i < size then do
        spiWrite8 (data i)
        return .inl (i + 1)
      else return .inr (result i)) i) (taking mem wel received ops) (result size)
      (taking mem wel (received ++ (List.range' i (size - i)).map data) ops) := by
  refine Rounds.ends ?_
  obtain ⟨n, hn⟩ : ∃ n, size - i = n := ⟨_, rfl⟩
  rw [hn]
  induction n generalizing i received with
  | zero =>
    obtain rfl : i = size := by omega
    refine .done ?_
    rw [if_neg (Nat.lt_irrefl i)]
    exact .ret rfl (by simp)
  | succ n ih =>
    have hlt : i < size := by omega
    have hrest := ih (i := i + 1) (by omega) (received ++ [data i]) (by omega)
    rw [List.append_assoc] at hrest
    rw [List.range'_succ]
    refine .again ?_ hrest
    rw [if_pos hlt]
    exact (byte_ends received (data i)).bind (.pure _ _)

/-- The bytes that `flash_program_page` sends after the address. -/
def pageBytes (data : ℕ → Byte) (size : ℕ) : List Byte :=
  (List.range' 0 size).map data ++ (List.range' size (flashPageSize - size)).map fun _ => 0xff#8

theorem length_pageBytes (data : ℕ → Byte) {size : ℕ} (hsize : size ≤ flashPageSize) :
    (pageBytes data size).length = flashPageSize := by
  simp [pageBytes]
  omega

/-- A page program takes effect when the flash is deselected. -/
theorem select_program (a2 a1 a0 : Byte) {data : List Byte} (hlen : data.length = flashPageSize) :
    (taking mem true ([flashPp, a2, a1, a0] ++ data) ops).select m T false =
      ⟨Op.apply m (.program (a2 ++ a1 ++ a0) data) mem, false, T.busy ops.length, false, [],
        ops ++ [.program (a2 ++ a1 ++ a0) data]⟩ := by
  match data, hlen with
  | d :: ds, hlen =>
    have hle : ds.length + 1 ≤ flashPageSize := Nat.le_of_eq hlen
    simp [Nor.select, taking, Nor.execute, Nor.commit, hle]

theorem flashProgramPage_ends (addr : Word) (data : ℕ → Byte) {size : ℕ} (hsize : size ≤ flashPageSize) :
    Ends (nor (m := m) (T := T)) (flashProgramPage addr data size) (idle mem true ops) ()
      (idle (Op.apply m (.program (addr.setWidth 24) (pageBytes data size)) mem) false
        (ops ++ [.program (addr.setWidth 24) (pageBytes data size)])) := by
  rw [← addrByte_append]
  have hdata := send_ends (m := m) (T := T) mem true ops data size id (Nat.zero_le size)
    [flashPp, addrByte addr 16, addrByte addr 8, addrByte addr 0]
  have hfill := send_ends (m := m) (T := T) mem true ops (fun _ => 0xff#8) flashPageSize (fun _ => ()) hsize
    ([flashPp, addrByte addr 16, addrByte addr 8, addrByte addr 0] ++ (List.range' 0 size).map data)
  have hdeselect := spiCs_ends (m := m) (T := T) (taking mem true ([flashPp, addrByte addr 16,
    addrByte addr 8, addrByte addr 0] ++ pageBytes data size) ops) false
  rw [List.append_assoc] at hfill
  rw [select_program _ _ _ (length_pageBytes data hsize)] at hdeselect
  exact select_ends.bind ((byte_ends [] _).bind ((byte_ends _ _).bind ((byte_ends _ _).bind
    ((byte_ends _ _).bind (hdata.bind (hfill.bind (hdeselect.bind (flashWaitCompletion_ends _))))))))

/-- Reading on: the flash sends the bytes from the address on. -/
theorem answer_read (a2 a1 a0 : Byte) (rest : List Byte) :
    (taking mem wel ([flashRead, a2, a1, a0] ++ rest) ops).answer m =
      mem (a2 ++ a1 ++ a0 + BitVec.ofNat 24 rest.length) := rfl

/-- The end of a read changes nothing. -/
theorem select_read (a2 a1 a0 : Byte) (rest : List Byte) :
    (taking mem wel ([flashRead, a2, a1, a0] ++ rest) ops).select m T false = idle mem wel ops := by
  cases rest with
  | nil => rfl
  | cons b bs => simp [Nor.select, taking, Nor.execute, idle, flashRead, flashPp]

theorem flashReadId_ends : Ends (nor (m := m) (T := T)) flashReadId (idle mem wel ops) m.id
    (idle mem wel ops) := by
  refine (spiCs_ends _ false).bind ((sleep_ends _ 10).bind (select_ends.bind ((sleep_ends _ 10).bind
    ((spiCs_ends _ true).bind ((byte_ends [] flashRdid).bind ((read_ends _ _ _ _).bind ((read_ends _ _ _ _).bind
      ((read_ends _ _ _ _).bind ((spiCs_ends _ false).bind (.ret ?_ rfl))))))))))
  show (m.id.extractLsb' 16 8).setWidth 32 <<< 16 + (m.id.extractLsb' 8 8).setWidth 32 <<< 8 +
    (m.id.extractLsb' 0 8).setWidth 32 = m.id
  cases m <;> decide

end Commands

end Svec.Host.FlashCommands
