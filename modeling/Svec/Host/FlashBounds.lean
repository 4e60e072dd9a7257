/-
  Host/FlashBounds.lean --- the buffers of `flash_program`.

  The accesses of `flash_program` to the image and to its map of sectors are made
  explicit by twins of its functions that log them.  The length of a page is taken
  from the size of the whole image, so the last page is read to its end unless it
  is the only one; the index into the map is not checked.
-/
import Svec.Prog.Logged
import Svec.Host.FlashRegions

set_option autoImplicit false

namespace Svec.Host.FlashBounds

open Svec.Data Svec.Host Svec.Prog Svec.Host.FlashTool
open Svec.Host.NorFlash (Model)
open Svec.Host.SvecFlasher (csrWritel_eq_write csrReadl_eq_read)

variable {M : Machine}

/-! ## The accesses -/

/-- What `flash_program` does with its buffers. -/
inductive Access where
  /-- `sector_map[sector]`. -/
  | sectorMap (sector : ℕ)
  /-- `data[k]` is sent to the flash. -/
  | data (k : ℕ)
  /-- 0xff is sent in the place of the byte `k`. -/
  | fill (k : ℕ)
  /-- The page that begins with the byte `n` has been sent. -/
  | page (n : ℕ)
  /-- `data[k]` is compared. -/
  | verify (k : ℕ)
  deriving DecidableEq, Repr

/-- A round of the first loop of `flash_program_page`, for the page of byte `n`. -/
def notedDataRound (data : Buffer) (n size i : ℕ) : Program (Proc M × List Access) (ℕ ⊕ ℕ) :=
  if i < size then do
    note (.data (n + i))
    quiet (spiWrite8 (data.byte (n + i)))
    return .inl (i + 1)
  else return .inr i

/-- A round of the second loop. -/
def notedFillRound (n i : ℕ) : Program (Proc M × List Access) (ℕ ⊕ Unit) :=
  if i < flashPageSize then do
    note (.fill (n + i))
    quiet (spiWrite8 0xff#8)
    return .inl (i + 1)
  else return .inr ()

/-- `flash_program_page`. -/
def notedProgramPage (addr : Word) (data : Buffer) (n size : ℕ) :
    Program (Proc M × List Access) Unit := do
  quiet (spiCs true)
  quiet (spiWrite8 flashPp)
  quiet (spiWrite8 (addrByte addr 16))
  quiet (spiWrite8 (addrByte addr 8))
  quiet (spiWrite8 (addrByte addr 0))
  let i ← loop (notedDataRound data n size) 0
  loop (notedFillRound n) i
  note (.page n)
  quiet (spiCs false)
  quiet flashWaitCompletion

/-- A round of the page loop. -/
def notedProgramRound (addr : Word) (data : Buffer) (size : Int) (sectorSize : ℕ) :
    ℕ × List Bool → Program (Proc M × List Access) ((ℕ × List Bool) ⊕ Unit)
  | (n, sectorMap) =>
    if (n : Int) < size then
      let plen := if size > flashPageSize then flashPageSize else size.toNat
      let page := addr + BitVec.ofNat 32 n
      let sector := page.toNat / sectorSize
      do
        note (.sectorMap sector)
        match sectorMap[sector]? with
        | none => stop
        | some erased => do
          quiet (eraseOnce erased page)
          quiet flashWriteEnable
          notedProgramPage page data n plen
          return .inl (n + plen, sectorMap.set sector true)
    else return .inr ()

/-- A round of the verification. -/
def notedVerifyRound (data : Buffer) (size : Int) (n : ℕ) : Program (Proc M × List Access) (ℕ ⊕ Int) :=
  if (n : Int) < size then do
    let d ← quiet spiRead8
    note (.verify n)
    return if d ≠ data.byte n then .inr (-SvecCore.einval) else .inl (n + 1)
  else return .inr 0

/-- `flash_program`. -/
def notedFlashProgram (malloc : Bool) (addr : Word) (data : Buffer) (size : Int) (flashId : Word) :
    Program (Proc M × List Access) Int :=
  match sectorSizeOf flashId with
  | none => return -enodev
  | some sectorSize =>
    if !malloc then return -enomem
    else do
      loop (notedProgramRound addr data size sectorSize) (0, List.replicate (flashSize / sectorSize) false)
      quiet (spiCs true)
      quiet (spiWrite8 flashRead)
      quiet (spiWrite8 (addrByte addr 16))
      quiet (spiWrite8 (addrByte addr 8))
      quiet (spiWrite8 (addrByte addr 0))
      let ret ← loop (notedVerifyRound data size) 0
      quiet (spiCs false)
      return ret

/-! ## Without the log -/

theorem notedProgramPage_erases (addr : Word) (data : Buffer) (n size : ℕ) :
    Erases (notedProgramPage (M := M) addr data n size)
      (flashProgramPage addr (fun i => data.byte (n + i)) size) := by
  have hdata : ∀ i, Erases (notedDataRound (M := M) data n size i)
      (dataRound (fun i => data.byte (n + i)) size i) := by
    intro i
    unfold notedDataRound dataRound
    split
    · exact .note _ (.bind (.quiet _) fun _ => .pure _)
    · exact .pure _
  have hfill : ∀ i, Erases (notedFillRound (M := M) n i) (fillRound i) := by
    intro i
    unfold notedFillRound fillRound
    split
    · exact .note _ (.bind (.quiet _) fun _ => .pure _)
    · exact .pure _
  exact .bind (.quiet _) fun _ => .bind (.quiet _) fun _ => .bind (.quiet _) fun _ =>
    .bind (.quiet _) fun _ => .bind (.quiet _) fun _ => .bind (.loop hdata 0) fun i =>
      .bind (.loop hfill i) fun _ => .note _ (.bind (.quiet _) fun _ => .quiet _)

/-- The twin of `flash_program` does what `flash_program` does. -/
theorem notedFlashProgram_erases (malloc : Bool) (addr : Word) (data : Buffer) (size : Int)
    (flashId : Word) : Erases (notedFlashProgram (M := M) malloc addr data size flashId)
      (flashProgram malloc addr data size flashId) := by
  have hround : ∀ sectorSize a, Erases (notedProgramRound (M := M) addr data size sectorSize a)
      (programRound addr data size sectorSize a) := by
    rintro sectorSize ⟨n, sectorMap⟩
    unfold notedProgramRound programRound
    simp only
    split
    · refine .note _ ?_
      cases sectorMap[(addr + BitVec.ofNat 32 n).toNat / sectorSize]? with
      | none => exact .stop
      | some erased =>
        exact .bind (.quiet _) fun _ => .bind (.quiet _) fun _ =>
          .bind (notedProgramPage_erases _ _ _ _) fun _ => .pure _
    · exact .pure _
  have hverify : ∀ n, Erases (notedVerifyRound (M := M) data size n) (verifyRound data size n) := by
    intro n
    unfold notedVerifyRound verifyRound
    split
    · exact .bind (.quiet _) fun _ => .note _ (.pure _)
    · exact .pure _
  unfold notedFlashProgram flashProgram
  cases sectorSizeOf flashId with
  | none => exact .pure _
  | some sectorSize =>
    cases malloc with
    | false => exact .pure _
    | true =>
      exact .bind (.loop (hround _) _) fun _ => .bind (.quiet _) fun _ => .bind (.quiet _) fun _ =>
        .bind (.quiet _) fun _ => .bind (.quiet _) fun _ => .bind (.quiet _) fun _ =>
          .bind (.loop hverify 0) fun _ => .bind (.quiet _) fun _ => .pure _

/-! ## Within the bounds -/

/-- What an image of `size` bytes and a map of `sectors` sectors allow.  A page is made up of
bytes of the image and of 0xff after them. -/
def Allowed (size : Int) (sectors : ℕ) (l : List Access) : Access → Prop
  | .sectorMap sector => sector < sectors
  | .data k => (k : Int) < size
  | .fill k => size ≤ k
  | .page n => ∀ j, j < flashPageSize → .data (n + j) ∈ l ∨ .fill (n + j) ∈ l
  | .verify k => (k : Int) < size

/-- All accesses are allowed. -/
def InBounds (size : Int) (sectors : ℕ) (l : List Access) : Prop := ∀ e ∈ l, Allowed size sectors l e

/-- `flash_program` stays within its buffers, on every machine and wherever it is stopped. -/
def StaysInBounds (m : Model) (addr : Word) (size : Int) : Prop :=
  ∀ (M : Machine) (malloc : Bool) (data : Buffer) (fuel : ℕ) (h : Proc M),
    InBounds size (flashSize / m.sectorSize)
      (notedFlashProgram malloc addr data size m.id fuel (h, [])).2.2

/-- The image is one page or whole pages, and fits into the flash. -/
def Fits (addr : Word) (size : Int) : Prop :=
  (size ≤ flashPageSize ∨ (flashPageSize : Int) ∣ size) ∧ addr.toNat + size ≤ flashSize

section InBounds

variable {size : Int} {sectors : ℕ} {l : List Access}

theorem Allowed.more {e : Access} (h : Allowed size sectors l e) (l' : List Access) :
    Allowed size sectors (l ++ l') e := by
  cases e with
  | page n =>
    exact fun j hj => (h j hj).imp (List.mem_append_left _) (List.mem_append_left _)
  | _ => exact h

theorem InBounds.concat {e : Access} (h : InBounds size sectors l)
    (he : Allowed size sectors (l ++ [e]) e) : InBounds size sectors (l ++ [e]) := by
  intro e' hmem
  rcases List.mem_append.mp hmem with hold | hnew
  · exact (h e' hold).more [e]
  · rw [List.mem_singleton.mp hnew]
    exact he

/-- The bytes of a page that are bytes of the image. -/
structure PageOf (size : Int) (n plen : ℕ) : Prop where
  le : plen ≤ flashPageSize
  data : ∀ j, j < flashPageSize → (((n + j : ℕ) : Int) < size ↔ j < plen)

/-- The first `i` bytes of the page have been sent. -/
def Sent (size : Int) (sectors n i : ℕ) (l : List Access) : Prop :=
  InBounds size sectors l ∧ ∀ j, j < i → .data (n + j) ∈ l ∨ .fill (n + j) ∈ l

/-- One more byte of the page. -/
theorem guards_send {n i : ℕ} {e : Access} (b : Byte) (he : e = .data (n + i) ∨ e = .fill (n + i))
    (hallowed : ∀ l, Allowed size sectors l e) {β : Type} :
    Guards (InBounds size sectors) (Sent size sectors n i)
      (do
        note e
        quiet (spiWrite8 (M := M) b)
        return (.inl (i + 1) : ℕ ⊕ β))
      fun r l => r = .inl (i + 1) ∧ Sent size sectors n (i + 1) l := by
  refine .note_bind (Sent size sectors n (i + 1)) (fun l ⟨hin, hbytes⟩ => ?_)
    (.quiet_bind (fun l hl => hl.1) fun _ => .pure fun l hl => ⟨hl.1, rfl, hl⟩)
  have hin' : InBounds size sectors (l ++ [e]) := hin.concat (hallowed _)
  refine ⟨hin', hin', fun j hj => ?_⟩
  rcases Nat.lt_succ_iff_lt_or_eq.mp hj with hlt | rfl
  · exact (hbytes j hlt).imp (List.mem_append_left _) (List.mem_append_left _)
  · exact he.imp (fun he => by simp [he]) fun he => by simp [he]

theorem guards_notedDataRound (data : Buffer) {n plen : ℕ} (h : PageOf size n plen) (i : ℕ) :
    Guards (InBounds size sectors) (fun l => i ≤ plen ∧ Sent size sectors n i l)
      (notedDataRound (M := M) data n plen i) fun r l =>
        Sum.elim (fun k => k ≤ plen ∧ Sent size sectors n k l)
          (fun k => plen ≤ k ∧ Sent size sectors n k l) r := by
  unfold notedDataRound
  split
  · rename_i hlt
    have hle := h.le
    refine (guards_send (data.byte (n + i)) (.inl rfl) fun _ => (h.data i (by omega)).mpr hlt).mono
      (fun l hl => hl.2) fun r l hr => ?_
    rw [hr.1]
    exact ⟨hlt, hr.2⟩
  · rename_i hge
    exact .pure fun l hl => ⟨hl.2.1, by omega, hl.2⟩

theorem guards_notedFillRound {n plen : ℕ} (h : PageOf size n plen) (i : ℕ) :
    Guards (InBounds size sectors) (fun l => plen ≤ i ∧ Sent size sectors n i l)
      (notedFillRound (M := M) n i) fun r l =>
        Sum.elim (fun k => plen ≤ k ∧ Sent size sectors n k l)
          (fun _ => Sent size sectors n flashPageSize l) r := by
  unfold notedFillRound
  split
  · rename_i hlt
    by_cases hi : plen ≤ i
    · refine (guards_send 0xff#8 (.inr rfl) fun _ => ?_).mono (fun l hl => hl.2) fun r l hr => ?_
      · have hdata := (h.data i hlt).not.mpr (by omega)
        exact Int.not_lt.mp hdata
      · rw [hr.1]
        exact ⟨by omega, hr.2⟩
    · exact fun _ _ hl => absurd hl.1 hi
  · rename_i hge
    exact .pure fun l hl => ⟨hl.2.1, hl.2.1, fun j hj => hl.2.2 j (by omega)⟩

theorem guards_notedProgramPage (addr : Word) (data : Buffer) {n plen : ℕ} (h : PageOf size n plen) :
    Guards (InBounds size sectors) (InBounds size sectors)
      (notedProgramPage (M := M) addr data n plen) fun _ => InBounds size sectors := by
  have hdata := Guards.loop (S := InBounds size sectors) _ (fun _ _ hl => hl.2.1)
    (guards_notedDataRound (M := M) data h) 0
  have hfill := fun i => Guards.loop (S := InBounds size sectors) _ (fun _ _ hl => hl.2.1)
    (guards_notedFillRound (M := M) h) i
  refine .quiet_bind (fun _ => id) fun _ => .quiet_bind (fun _ => id) fun _ =>
    .quiet_bind (fun _ => id) fun _ => .quiet_bind (fun _ => id) fun _ => .quiet_bind (fun _ => id) fun _ =>
      .bind (hdata.mono (fun l hl => ⟨Nat.zero_le _, hl, fun j hj => absurd hj (Nat.not_lt_zero j)⟩)
        fun _ _ hl => hl) fun i => .bind (hfill i) fun _ =>
          .note_bind (InBounds size sectors) (fun l hl => ?_)
            (.quiet_bind (fun _ => id) fun _ => .quiet _ fun _ => id)
  have hin : InBounds size sectors (l ++ [.page n]) := hl.1.concat fun j hj =>
    (hl.2 j hj).imp (List.mem_append_left _) (List.mem_append_left _)
  exact ⟨hin, hin⟩

/-- The number of bytes that the page loop takes as the length of a page. -/
def plen (size : Int) : ℕ := if size > flashPageSize then flashPageSize else size.toNat

/-- In an image that fits, every page is. -/
theorem pageOf_plen {addr : Word} (hfits : Fits addr size) {n : ℕ} (hoffset : n % flashPageSize = 0)
    (hn : (n : Int) < size) : PageOf size n (plen size) := by
  obtain ⟨hpages, -⟩ := hfits
  unfold plen flashPageSize at *
  rcases hpages with hone | ⟨k, rfl⟩
  · rw [if_neg (by omega)]
    exact ⟨by unfold flashPageSize; omega, fun j hj => by unfold flashPageSize at hj; omega⟩
  · by_cases hlarge : ((256 : ℕ) : Int) * k > ((256 : ℕ) : Int)
    · rw [if_pos hlarge]
      exact ⟨by unfold flashPageSize; omega, fun j hj => by unfold flashPageSize at hj; omega⟩
    · rw [if_neg hlarge]
      exact ⟨by unfold flashPageSize; omega, fun j hj => by unfold flashPageSize at hj; omega⟩

theorem toNat_offset {addr : Word} {n : ℕ} (h : addr.toNat + n ≤ flashSize) :
    (addr + BitVec.ofNat 32 n).toNat = addr.toNat + n := by
  unfold flashSize at h
  rw [BitVec.toNat_add, BitVec.toNat_ofNat, Nat.mod_eq_of_lt (by omega : n < 2 ^ 32)]
  exact Nat.mod_eq_of_lt (by omega)

/-- The sector of a byte of the flash is in the map. -/
theorem sector_in_map {m : Model} {addr : Word} {n : ℕ} (h : addr.toNat + n < flashSize) :
    (addr + BitVec.ofNat 32 n).toNat / m.sectorSize < flashSize / m.sectorSize := by
  rw [toNat_offset (Nat.le_of_lt h)]
  exact FlashProgram.sector_lt h

/-- A round of the page loop begins at a page, or behind the image. -/
theorem guards_notedProgramRound {m : Model} {addr : Word} (data : Buffer) (hfits : Fits addr size)
    (a : ℕ × List Bool) :
    Guards (InBounds size (flashSize / m.sectorSize))
      (fun l => (a.1 % flashPageSize = 0 ∨ size ≤ a.1) ∧ InBounds size (flashSize / m.sectorSize) l)
      (notedProgramRound (M := M) addr data size m.sectorSize a) fun r l =>
        Sum.elim (fun a : ℕ × List Bool => (a.1 % flashPageSize = 0 ∨ size ≤ a.1) ∧
            InBounds size (flashSize / m.sectorSize) l)
          (fun _ => InBounds size (flashSize / m.sectorSize) l) r := by
  obtain ⟨n, sectorMap⟩ := a
  unfold notedProgramRound
  simp only
  split
  swap
  · exact .pure fun l hl => ⟨hl.2, hl.2⟩
  rename_i hn
  by_cases hoffset : n % flashPageSize = 0
  swap
  · exact fun _ _ hl => absurd (hl.1.resolve_left hoffset) (by omega)
  have hpage := pageOf_plen hfits hoffset hn
  have hlt : addr.toNat + n < flashSize := by
    have hend := hfits.2
    omega
  refine .note_bind (InBounds size (flashSize / m.sectorSize)) (fun l hl => ?_) ?_
  · have hin : InBounds size (flashSize / m.sectorSize) (l ++ [_]) :=
      hl.2.concat (e := .sectorMap _) (sector_in_map hlt)
    exact ⟨hin, hin⟩
  cases sectorMap[(addr + BitVec.ofNat 32 n).toNat / m.sectorSize]? with
  | none => exact fun _ _ hl => ⟨hl, fun _ h => nomatch h⟩
  | some erased =>
    refine .quiet_bind (fun _ => id) fun _ => .quiet_bind (fun _ => id) fun _ =>
      (guards_notedProgramPage _ data hpage).bind fun _ => .pure fun l hl => ⟨hl, ?_, hl⟩
    show (n + plen size) % flashPageSize = 0 ∨ size ≤ ((n + plen size : ℕ) : Int)
    unfold plen flashPageSize at *
    split <;> omega

theorem guards_notedVerifyRound (data : Buffer) (n : ℕ) :
    Guards (InBounds size sectors) (InBounds size sectors) (notedVerifyRound (M := M) data size n)
      fun r l => Sum.elim (fun _ => InBounds size sectors l) (fun _ => InBounds size sectors l) r := by
  unfold notedVerifyRound
  split
  · rename_i hn
    refine .quiet_bind (fun _ => id) fun d => .note_bind (InBounds size sectors) (fun l hl => ?_)
      (.pure fun l hl => ⟨hl, ?_⟩)
    · have hin : InBounds size sectors (l ++ [.verify n]) := hl.concat hn
      exact ⟨hin, hin⟩
    · split <;> exact hl
  · exact .pure fun l hl => ⟨hl, hl⟩

/-- An image that fits is programmed within the bounds. -/
theorem staysInBounds_of_fits {m : Model} {addr : Word} (hfits : Fits addr size) :
    StaysInBounds m addr size := by
  intro M malloc data fuel h
  have hsector : sectorSizeOf m.id = some m.sectorSize := by cases m <;> rfl
  suffices hguards : Guards (InBounds size (flashSize / m.sectorSize)) (fun l => l = [])
      (notedFlashProgram (M := M) malloc addr data size m.id)
      fun _ => InBounds size (flashSize / m.sectorSize) from (hguards fuel (h, []) rfl).1
  have hnil : InBounds size (flashSize / m.sectorSize) [] := fun e he => nomatch he
  unfold notedFlashProgram
  rw [hsector]
  cases malloc with
  | false => exact .pure fun l hl => ⟨hl ▸ hnil, hl ▸ hnil⟩
  | true =>
    have hpages := Guards.loop (S := InBounds size (flashSize / m.sectorSize)) _ (fun _ _ hl => hl.2)
      (guards_notedProgramRound (M := M) data hfits)
      (0, List.replicate (flashSize / m.sectorSize) false)
    have hverify := Guards.loop (S := InBounds size (flashSize / m.sectorSize)) _ (fun _ _ hl => hl)
      (guards_notedVerifyRound (M := M) data) 0
    exact .bind (hpages.mono (fun l hl => ⟨.inl rfl, hl ▸ hnil⟩) fun _ _ hl => hl) fun _ =>
      .quiet_bind (fun _ => id) fun _ => .quiet_bind (fun _ => id) fun _ =>
        .quiet_bind (fun _ => id) fun _ => .quiet_bind (fun _ => id) fun _ =>
          .quiet_bind (fun _ => id) fun _ => hverify.bind fun _ => .quiet_bind (fun _ => id) fun _ =>
            .pure fun l hl => ⟨hl, hl⟩

end InBounds

/-! ## What is logged stays -/

section Keeps

variable {e : Access}

theorem keeps_notedProgramPage (addr : Word) (data : Buffer) (n plen : ℕ) :
    Keeps (fun s : Proc M × List Access => e ∈ s.2) (notedProgramPage addr data n plen) := by
  have hdata : ∀ i, Keeps (fun s : Proc M × List Access => e ∈ s.2) (notedDataRound data n plen i) := by
    intro i
    unfold notedDataRound
    split
    · exact (Keeps.note e _).bind fun _ => (Keeps.quiet (e ∈ ·) _).bind fun _ => .pure _
    · exact .pure _
  have hfill : ∀ i, Keeps (fun s : Proc M × List Access => e ∈ s.2) (notedFillRound n i) := by
    intro i
    unfold notedFillRound
    split
    · exact (Keeps.note e _).bind fun _ => (Keeps.quiet (e ∈ ·) _).bind fun _ => .pure _
    · exact .pure _
  have hquiet : ∀ {α : Type} (p : Program (Proc M) α),
      Keeps (fun s : Proc M × List Access => e ∈ s.2) (quiet p) := fun p => Keeps.quiet (e ∈ ·) p
  exact (hquiet _).bind fun _ => (hquiet _).bind fun _ => (hquiet _).bind fun _ => (hquiet _).bind fun _ =>
    (hquiet _).bind fun _ => (Keeps.loop hdata 0).bind fun i => (Keeps.loop hfill i).bind fun _ =>
      (Keeps.note e _).bind fun _ => (hquiet _).bind fun _ => hquiet _

theorem keeps_notedProgramRound (addr : Word) (data : Buffer) (size : Int) (sectorSize : ℕ)
    (a : ℕ × List Bool) : Keeps (fun s : Proc M × List Access => e ∈ s.2)
      (notedProgramRound addr data size sectorSize a) := by
  obtain ⟨n, sectorMap⟩ := a
  unfold notedProgramRound
  simp only
  split
  swap
  · exact .pure _
  refine (Keeps.note e _).bind fun _ => ?_
  cases sectorMap[(addr + BitVec.ofNat 32 n).toNat / sectorSize]? with
  | none => exact .stop
  | some erased =>
    exact (Keeps.quiet (e ∈ ·) _).bind fun _ => (Keeps.quiet (e ∈ ·) _).bind fun _ =>
      (keeps_notedProgramPage _ _ _ _).bind fun _ => .pure _

theorem keeps_notedVerifyRound (data : Buffer) (size : Int) (n : ℕ) :
    Keeps (fun s : Proc M × List Access => e ∈ s.2) (notedVerifyRound data size n) := by
  unfold notedVerifyRound
  split
  · exact (Keeps.quiet (e ∈ ·) _).bind fun _ => (Keeps.note e _).bind fun _ => .pure _
  · exact .pure _

end Keeps

/-! ## Out of the bounds -/

/-- A card whose flash is always ready and reads as 0. -/
def readyCard : Machine where
  State := Unit
  busRead _ _ := (0x200#32, ())
  busWrite _ _ _ := ()
  mdelay _ _ := ()
  usleepRange _ _ _ := ()
  getJiffies64 _ := (0#64, ())
  usecsToJiffies us := us.setWidth 64

section Ready

/-- Every routine of the flasher returns on it, and always the same. -/
def Returns {α : Type} (p : Program (Proc readyCard) α) (a : α) : Prop := Ends (fun _ => ()) p () a ()

theorem Returns.bind {α β : Type} {p : Program (Proc readyCard) α} {f : α → Program (Proc readyCard) β}
    {a : α} {b : β} (hp : Returns p a) (hf : Returns (f a) b) : Returns (p >>= f) b := Ends.bind hp hf

theorem returns_writel (v a : Word) : Returns (writel v a) () := .act fun _ _ => ⟨rfl, rfl⟩

theorem returns_readl (a : Word) : Returns (readl a) 0x200#32 :=
  .act fun _ _ => ⟨by rw [csrReadl_eq_read]; rfl, rfl⟩

theorem returns_spiCs (cs : Bool) : Returns (spiCs cs) () :=
  (returns_writel _ _).bind (.act fun _ _ => ⟨rfl, rfl⟩)

theorem returns_awaitReady : Returns awaitReady 0x200#32 := by
  have hround : Returns (readyRound ()) (.inr 0x200#32) :=
    (returns_readl regFar).bind (.ret (by simp [farReadyBit]) rfl)
  exact (Rounds.done hround).ends

theorem returns_spiWrite8 (b : Byte) : Returns (spiWrite8 b) () :=
  (returns_writel _ _).bind (returns_awaitReady.bind (.pure _ _))

theorem returns_spiRead8 : Returns spiRead8 0#8 :=
  (returns_writel _ _).bind (returns_awaitReady.bind (.ret (by simp [farDataR]) rfl))

theorem returns_flashWaitCompletion : Returns flashWaitCompletion () := by
  have hround : Returns (waitRound true) (.inl false) := by
    unfold waitRound
    rw [if_pos rfl]
    exact (returns_spiCs _).bind ((returns_spiWrite8 _).bind (returns_spiRead8.bind
      ((returns_spiCs _).bind (.ret (by simp) rfl))))
  exact (Rounds.again hround (.done (.pure _ _))).ends

theorem returns_flashWriteEnable : Returns flashWriteEnable () :=
  (returns_spiCs _).bind ((returns_spiWrite8 _).bind (returns_spiCs _))

theorem returns_eraseOnce (erased : Bool) (addr : Word) : Returns (eraseOnce erased addr) () := by
  cases erased with
  | true => exact .pure _ _
  | false =>
    exact returns_flashWriteEnable.bind ((returns_spiCs _).bind ((returns_spiWrite8 _).bind
      ((returns_spiWrite8 _).bind ((returns_spiWrite8 _).bind ((returns_spiWrite8 _).bind
        ((returns_spiCs _).bind returns_flashWaitCompletion))))))

/-- The log of the twins on it. -/
def log (s : Proc readyCard × List Access) : List Access := s.2

theorem Returns.quiet {α : Type} {p : Program (Proc readyCard) α} {a : α} (h : Returns p a)
    (l : List Access) : Ends log (quiet p) l a l := Ends.quiet h l

theorem note_ends (e : Access) (l : List Access) : Ends log (note e) l () (l ++ [e]) := Ends.note e l

/-- A page is sent, with as many bytes of the image as its length says. -/
theorem notedProgramPage_ends (addr : Word) (data : Buffer) (n plen : ℕ) (l : List Access) :
    ∃ l', Ends log (notedProgramPage addr data n plen) l () l' ∧ ∀ j, j < plen → .data (n + j) ∈ l' := by
  obtain ⟨i, l₁, hdata, hsent⟩ : ∃ i l₁, Ends log (loop (notedDataRound data n plen) 0) l i l₁ ∧
      ∀ j, j < plen → .data (n + j) ∈ l₁ := by
    refine ends_loop (fun i l => i ≤ plen ∧ ∀ j, j < i → .data (n + j) ∈ l) _ (fun i _ => plen - i) ?_
      ⟨Nat.zero_le _, fun j hj => absurd hj (Nat.not_lt_zero j)⟩
    rintro i l ⟨hle, hsent⟩
    unfold notedDataRound
    by_cases hi : i < plen
    · refine .inr ⟨i + 1, l ++ [.data (n + i)], ?_, ⟨hi, fun j hj => ?_⟩, by omega⟩
      · rw [if_pos hi]
        exact (note_ends _ l).bind (((returns_spiWrite8 _).quiet _).bind (.pure _ _))
      · rcases Nat.lt_succ_iff_lt_or_eq.mp hj with hlt | rfl
        · exact List.mem_append_left _ (hsent j hlt)
        · simp
    · refine .inl ⟨i, l, ?_, fun j hj => hsent j (by omega)⟩
      rw [if_neg hi]
      exact .pure _ _
  obtain ⟨⟨⟩, l₂, hfill, hsent⟩ : ∃ b l₂, Ends log (loop (notedFillRound n) i) l₁ b l₂ ∧
      ∀ j, j < plen → .data (n + j) ∈ l₂ := by
    refine ends_loop (fun _ l => ∀ j, j < plen → .data (n + j) ∈ l) _ (fun i _ => flashPageSize - i) ?_ hsent
    rintro i l hsent
    unfold notedFillRound
    by_cases hi : i < flashPageSize
    · refine .inr ⟨i + 1, l ++ [.fill (n + i)], ?_, fun j hj => List.mem_append_left _ (hsent j hj), by omega⟩
      rw [if_pos hi]
      exact (note_ends _ l).bind (((returns_spiWrite8 _).quiet _).bind (.pure _ _))
    · refine .inl ⟨(), l, ?_, hsent⟩
      rw [if_neg hi]
      exact .pure _ _
  refine ⟨l₂ ++ [.page n], ?_, fun j hj => List.mem_append_left _ (hsent j hj)⟩
  exact ((returns_spiCs _).quiet _).bind (((returns_spiWrite8 _).quiet _).bind
    (((returns_spiWrite8 _).quiet _).bind (((returns_spiWrite8 _).quiet _).bind
      (((returns_spiWrite8 _).quiet _).bind (hdata.bind (hfill.bind ((note_ends _ _).bind
        (((returns_spiCs _).quiet _).bind (returns_flashWaitCompletion.quiet _)))))))))

/-- A page whose sector is in the map. -/
theorem notedProgramRound_ends {addr : Word} {size : Int} {sectorSize n : ℕ} {sectorMap : List Bool}
    (data : Buffer) (l : List Access) (hn : (n : Int) < size)
    (hmap : (addr + BitVec.ofNat 32 n).toNat / sectorSize < sectorMap.length) :
    ∃ l', Ends log (notedProgramRound addr data size sectorSize (n, sectorMap)) l
        (.inl (n + plen size, sectorMap.set ((addr + BitVec.ofNat 32 n).toNat / sectorSize) true)) l' ∧
      ∀ j, j < plen size → .data (n + j) ∈ l' := by
  obtain ⟨l', hpage, hsent⟩ := notedProgramPage_ends (addr + BitVec.ofNat 32 n) data n (plen size)
    (l ++ [.sectorMap ((addr + BitVec.ofNat 32 n).toNat / sectorSize)])
  refine ⟨l', ?_, hsent⟩
  unfold notedProgramRound
  simp only
  rw [if_pos hn, List.getElem?_eq_getElem hmap]
  exact (note_ends _ l).bind (((returns_eraseOnce _ _).quiet _).bind ((returns_flashWriteEnable.quiet _).bind
    (hpage.bind (.pure _ _))))

/-- The page loop comes to every page behind pages that lie in the flash. -/
theorem reaches_page {m : Model} {addr : Word} {size : Int} (data : Buffer)
    (hsize : (flashPageSize : Int) < size) (k : ℕ)
    (hbefore : ∀ j, j < k → ((flashPageSize * j : ℕ) : Int) < size ∧ addr.toNat + flashPageSize * j < flashSize) :
    ∃ sectorMap l, sectorMap.length = flashSize / m.sectorSize ∧
      Reaches log (notedProgramRound addr data size m.sectorSize)
        (0, List.replicate (flashSize / m.sectorSize) false) [] (flashPageSize * k, sectorMap) l := by
  suffices hreach : ∀ n i sectorMap l, i + n = k → sectorMap.length = flashSize / m.sectorSize →
      ∃ sectorMap' l', sectorMap'.length = flashSize / m.sectorSize ∧
        Reaches log (notedProgramRound addr data size m.sectorSize) (flashPageSize * i, sectorMap) l
          (flashPageSize * k, sectorMap') l' from hreach k 0 _ [] (Nat.zero_add k) (by simp)
  intro n
  induction n with
  | zero =>
    rintro i sectorMap l rfl hlen
    exact ⟨sectorMap, l, hlen, .refl _ _⟩
  | succ n ih =>
    intro i sectorMap l hk hlen
    obtain ⟨hn, hflash⟩ := hbefore i (by omega)
    obtain ⟨l', hround, -⟩ := notedProgramRound_ends data l hn (hlen ▸ sector_in_map hflash)
    have hplen : flashPageSize * i + plen size = flashPageSize * (i + 1) := by
      rw [plen, if_pos hsize, Nat.mul_succ]
    rw [hplen] at hround
    obtain ⟨sectorMap', l'', hlen', hreach⟩ := ih (i + 1) _ l' (by omega) ((List.length_set ..).trans hlen)
    exact ⟨sectorMap', l'', hlen', .step hround hreach⟩

/-- What the page loop comes to log, `flash_program` has logged. -/
theorem logged_of_round {m : Model} {addr : Word} {size : Int} {data : Buffer} {e : Access}
    (h : Finally log (loop (notedProgramRound addr data size m.sectorSize)
      (0, List.replicate (flashSize / m.sectorSize) false)) [] fun s => e ∈ s.2) :
    ∃ fuel, e ∈ (notedFlashProgram true addr data size m.id fuel ((⟨(), []⟩ : Proc readyCard), [])).2.2 := by
  have hsector : sectorSizeOf m.id = some m.sectorSize := by cases m <;> rfl
  have hquiet : ∀ {α : Type} (p : Program (Proc readyCard) α),
      Keeps (fun s : Proc readyCard × List Access => e ∈ s.2) (quiet p) := fun p => Keeps.quiet (e ∈ ·) p
  suffices hfinally : Finally log (notedFlashProgram true addr data size m.id) [] fun s => e ∈ s.2 by
    obtain ⟨enough, hin⟩ := hfinally (⟨(), []⟩, []) rfl
    exact ⟨enough, hin enough (Nat.le_refl enough)⟩
  unfold notedFlashProgram
  rw [hsector]
  exact h.keeps fun _ => (hquiet _).bind fun _ => (hquiet _).bind fun _ => (hquiet _).bind fun _ =>
    (hquiet _).bind fun _ => (hquiet _).bind fun _ =>
      (Keeps.loop (keeps_notedVerifyRound data size) 0).bind fun _ => (hquiet _).bind fun _ => .pure _

section Leaves

variable {m : Model} {addr : Word} {size : Int}

/-- What is not allowed and gets into the log of the page loop. -/
theorem leaves_of_round {data : Buffer} {e : Access} {a : ℕ × List Bool} {l : List Access}
    (hreach : Reaches log (notedProgramRound addr data size m.sectorSize)
      (0, List.replicate (flashSize / m.sectorSize) false) [] a l)
    (hround : Finally log (notedProgramRound addr data size m.sectorSize a) l fun s => e ∈ s.2)
    (he : ∀ l, ¬ Allowed size (flashSize / m.sectorSize) l e) : ¬ StaysInBounds m addr size := by
  intro hstays
  obtain ⟨fuel, hin⟩ := logged_of_round (m := m)
    (hreach.finally (keeps_notedProgramRound addr data size m.sectorSize) hround)
  exact he _ (hstays readyCard true data fuel ⟨(), []⟩ e hin)

/-- The first page behind the end of the flash. -/
theorem leaves_map (haligned : addr.toNat % flashPageSize = 0) (hsize : (flashPageSize : Int) < size)
    (hbase : addr.toNat ≤ flashSize) (hend : flashSize < addr.toNat + size) : ¬ StaysInBounds m addr size := by
  obtain ⟨k, hk⟩ : ∃ k, addr.toNat + flashPageSize * k = flashSize := by
    refine ⟨(flashSize - addr.toNat) / flashPageSize, ?_⟩
    unfold flashSize flashPageSize at *
    omega
  have hbefore : ∀ j, j < k →
      ((flashPageSize * j : ℕ) : Int) < size ∧ addr.toNat + flashPageSize * j < flashSize := by
    intro j hj
    have hlt : addr.toNat + flashPageSize * j < flashSize := by
      unfold flashPageSize at *
      omega
    exact ⟨by omega, hlt⟩
  obtain ⟨sectorMap, l, hlen, hreach⟩ := reaches_page (m := m) ⟨[], fun _ => 0#8⟩ hsize k hbefore
  have hsector : (addr + BitVec.ofNat 32 (flashPageSize * k)).toNat / m.sectorSize =
      flashSize / m.sectorSize := by rw [toNat_offset (Nat.le_of_eq hk), hk]
  refine leaves_of_round (e := .sectorMap (flashSize / m.sectorSize)) hreach ?_ fun _ => Nat.lt_irrefl _
  unfold notedProgramRound
  simp only
  rw [if_pos (by omega), hsector, List.getElem?_eq_none (Nat.le_of_eq hlen)]
  exact Finally.bind (note_ends _ l) (Keeps.stop.finally fun s hs => by
    rw [show s.2 = l ++ [_] from hs]
    simp)

/-- The last page of an image that is not made of whole pages. -/
theorem leaves_data (hsize : (flashPageSize : Int) < size) (hend : addr.toNat + size ≤ flashSize)
    (hwhole : ¬ (flashPageSize : Int) ∣ size) : ¬ StaysInBounds m addr size := by
  obtain ⟨k, r, hk, hpos, hr⟩ : ∃ k r : ℕ, size = ((flashPageSize * k + r : ℕ) : Int) ∧ 0 < r ∧
      r < flashPageSize := by
    refine ⟨size.toNat / flashPageSize, size.toNat % flashPageSize, ?_, ?_, Nat.mod_lt _ (by decide)⟩
    · rw [Nat.div_add_mod]
      omega
    · refine Nat.pos_of_ne_zero fun hzero => hwhole ?_
      have hdvd := Int.natCast_dvd_natCast.mpr (Nat.dvd_of_mod_eq_zero hzero)
      rwa [Int.toNat_of_nonneg (by omega)] at hdvd
  have hbefore : ∀ j, j ≤ k →
      ((flashPageSize * j : ℕ) : Int) < size ∧ addr.toNat + flashPageSize * j < flashSize := by
    intro j hj
    have hmul := Nat.mul_le_mul_left flashPageSize hj
    omega
  obtain ⟨sectorMap, l, hlen, hreach⟩ := reaches_page (m := m) ⟨[], fun _ => 0#8⟩ hsize k
    fun j hj => hbefore j (Nat.le_of_lt hj)
  obtain ⟨hn, hflash⟩ := hbefore k (Nat.le_refl k)
  obtain ⟨l', hround, hsent⟩ := notedProgramRound_ends ⟨[], fun _ => 0#8⟩ l hn (hlen ▸ sector_in_map hflash)
  have hread := hsent 255 (by rw [plen, if_pos hsize]; decide)
  refine leaves_of_round (e := .data (flashPageSize * k + 255)) hreach
    (hround.finally fun s hs => (show s.2 = l' from hs) ▸ hread) fun _ hlt => ?_
  have hlt' : ((flashPageSize * k + 255 : ℕ) : Int) < size := hlt
  unfold flashPageSize at *
  omega

end Leaves

end Ready

/-! ## The bounds -/

/-- An image of 257 bytes: its second page is read to the end. -/
theorem last_page_overread : ¬ ∀ (m : Model) (addr : Word) (size : Int), addr = 0#32 ∨
    addr = bootloaderBitstreamBase ∨ addr = bootloaderSdbBase → StaysInBounds m addr size := fun hall =>
  leaves_data (by decide) (by decide) (by decide) (hall .m25p128 bootloaderBitstreamBase 257 (.inr (.inl rfl)))

/-- `flash_program` stays within its buffers exactly if the image is one page or whole pages
and fits into the flash. -/
theorem stays_in_bounds_iff (m : Model) (addr : Word)
    (haddr : addr = 0#32 ∨ addr = bootloaderBitstreamBase ∨ addr = bootloaderSdbBase) (size : Int) :
    StaysInBounds m addr size ↔ Fits addr size := by
  refine ⟨fun hstays => ?_, staysInBounds_of_fits⟩
  obtain ⟨haligned, hbase⟩ : addr.toNat % flashPageSize = 0 ∧ addr.toNat + flashPageSize ≤ flashSize := by
    rcases haddr with rfl | rfl | rfl <;> exact ⟨by decide, by decide⟩
  have hend : addr.toNat + size ≤ flashSize := by
    by_contra hlong
    exact leaves_map haligned (by omega) (by omega) (by omega) hstays
  refine ⟨?_, hend⟩
  by_contra hpages
  obtain ⟨hsize, hwhole⟩ := not_or.mp hpages
  exact leaves_data (by omega) hend hwhole hstays

/-- An image of two pages for the application FPGA. -/
theorem stays_in_bounds_iff_two : StaysInBounds .mt25ql128 bootloaderBitstreamBase 512 :=
  (stays_in_bounds_iff .mt25ql128 bootloaderBitstreamBase (.inr (.inl rfl)) 512).mpr
    ⟨.inr (by decide), by decide⟩

end Svec.Host.FlashBounds
