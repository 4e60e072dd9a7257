/-
  Host/FlashProgram.lean --- `flash_program` on a healthy flash.

  The page loop erases each sector before its first page, and a page program can
  only clear bits, so a page must never be written into a sector that is erased
  later.  The invariant relates the sector map to the memory: a marked sector is
  erased wherever no page has been written yet, and an unmarked one is as it was.
-/
import Svec.Host.FlashCommands

set_option autoImplicit false

namespace Svec.Host.FlashProgram

open Svec.Data Svec.Host Svec.Prog Svec.Host.FlashTool Svec.Host.NorFlash Svec.Host.FlashCommands

variable {m : Model} {T : Timing}

/-! ## Pages and sectors -/

theorem sectorSize_pages (m : Model) : ∃ k, m.sectorSize = flashPageSize * k := by
  cases m
  · exact ⟨1024, rfl⟩
  · exact ⟨256, rfl⟩

/-- The sector of an address is in the map. -/
theorem sector_lt {m : Model} {x : ℕ} (hx : x < flashSize) : x / m.sectorSize < flashSize / m.sectorSize := by
  cases m <;> simp only [Model.sectorSize, flashSectorSizeM25p128, flashSectorSizeMt25ql128, flashSize] at *
  · omega
  · omega

/-- A page lies in one sector. -/
theorem sector_of_page {p x : ℕ} (hp : p % flashPageSize = 0) (hle : p ≤ x) (hlt : x < p + flashPageSize) :
    x / m.sectorSize = p / m.sectorSize := by
  obtain ⟨k, hk⟩ := sectorSize_pages m
  have hpage : x / flashPageSize = p / flashPageSize := by
    unfold flashPageSize at *
    omega
  rw [hk, ← Nat.div_div_eq_div_mul, ← Nat.div_div_eq_div_mul, hpage]

theorem apply_erase (a x : BitVec 24) (mem : Memory) : Op.apply m (.erase a) mem x =
    if x.toNat / m.sectorSize = a.toNat / m.sectorSize then 0xff#8 else mem x := rfl

/-- Programming a whole page. -/
theorem apply_program {a : BitVec 24} (ha : a.toNat % flashPageSize = 0) {data : List Byte}
    (hlen : data.length = flashPageSize) (x : BitVec 24) (mem : Memory) :
    Op.apply m (.program a data) mem x =
      if a.toNat ≤ x.toNat ∧ x.toNat < a.toNat + flashPageSize then
        mem x &&& data[x.toNat - a.toNat]?.getD 0xff#8
      else mem x := by
  have hpage : x.toNat / flashPageSize = a.toNat / flashPageSize ↔
      a.toNat ≤ x.toNat ∧ x.toNat < a.toNat + flashPageSize := by
    unfold flashPageSize at *
    omega
  unfold Op.apply
  by_cases h : a.toNat ≤ x.toNat ∧ x.toNat < a.toNat + flashPageSize
  · have hslot : slot a x = x.toNat - a.toNat := by
      unfold slot flashPageSize at *
      omega
    have htouch : (Op.program a data).Touches m x := by
      refine ⟨hpage.mpr h, ?_⟩
      rw [hslot, hlen]
      omega
    rw [if_pos htouch, if_pos h]
    show mem x &&& data[slot a x]?.getD 0xff#8 = _
    rw [hslot]
  · have htouch : ¬ (Op.program a data).Touches m x := fun ht => h (hpage.mp ht.1)
    rw [if_neg htouch, if_neg h]

/-- The bytes of a page: the data, and 0xff after it. -/
theorem getD_pageBytes (data : ℕ → Byte) (size i : ℕ) :
    (pageBytes data size)[i]?.getD 0xff#8 = if i < size then data i else 0xff#8 := by
  by_cases h : i < size
  · rw [pageBytes, List.getElem?_append_left (by simpa using h), if_pos h]
    simp [h]
  · rw [pageBytes, List.getElem?_append_right (by simpa using h), if_neg h]
    by_cases h' : i - size < flashPageSize - size
    · simp [h']
    · rw [List.getElem?_eq_none (by simpa using h')]
      rfl

/-! ## The page loop -/

/-- What is programmed where: the range of `flash_program`, within the flash. -/
structure Range where
  addr : Word
  data : Buffer
  aligned : addr.toNat % flashPageSize = 0
  fits : addr.toNat + data.bytes.length ≤ flashSize

namespace Range

/-- The number of bytes. -/
def size (r : Range) : ℕ := r.data.bytes.length

/-- The sectors that the range lies in. -/
def Meets (r : Range) (m : Model) (x : ℕ) : Prop :=
  ∃ j, j < r.size ∧ (r.addr.toNat + j) / m.sectorSize = x / m.sectorSize

/-- The address of the byte at offset `n`. -/
def pageAt (r : Range) (n : ℕ) : Word := r.addr + BitVec.ofNat 32 n

theorem pageAt_toNat (r : Range) {n : ℕ} (hn : n < r.size) : (r.pageAt n).toNat = r.addr.toNat + n := by
  have hfits := r.fits
  unfold size at hn
  unfold flashSize at hfits
  rw [pageAt, BitVec.toNat_add, BitVec.toNat_ofNat, Nat.mod_eq_of_lt (by omega : n < 2 ^ 32)]
  exact Nat.mod_eq_of_lt (by omega)

theorem pageAt_toNat24 (r : Range) {n : ℕ} (hn : n < r.size) :
    ((r.pageAt n).setWidth 24).toNat = r.addr.toNat + n := by
  have hfits := r.fits
  have hsize : n < r.data.bytes.length := hn
  unfold flashSize at hfits
  rw [BitVec.toNat_setWidth, r.pageAt_toNat hn]
  exact Nat.mod_eq_of_lt (by omega)

end Range

/-- How far the page loop is: `n` bytes are written, the sectors of the map are erased, and
`ops` was done. -/
structure Progress (m : Model) (r : Range) (before : Memory) (n : ℕ) (sectorMap : List Bool)
    (mem : Memory) : Prop where
  length : sectorMap.length = flashSize / m.sectorSize
  offset : n % flashPageSize = 0 ∨ r.size ≤ n
  marked : ∀ x, sectorMap[x / m.sectorSize]? = some true → r.Meets m x
  covered : ∀ x, r.addr.toNat ≤ x → x < r.addr.toNat + n → x < r.addr.toNat + r.size →
    sectorMap[x / m.sectorSize]? = some true
  written : ∀ x : BitVec 24, r.addr.toNat ≤ x.toNat → x.toNat < r.addr.toNat + n →
    x.toNat < r.addr.toNat + r.size → mem x = r.data.byte (x.toNat - r.addr.toNat)
  erased : ∀ x : BitVec 24, sectorMap[x.toNat / m.sectorSize]? = some true →
    x.toNat < r.addr.toNat ∨ r.addr.toNat + n ≤ x.toNat → mem x = 0xff#8
  kept : ∀ x : BitVec 24, sectorMap[x.toNat / m.sectorSize]? = some false → mem x = before x

section Progress

variable {r : Range} {before mem : Memory} {n : ℕ} {sectorMap : List Bool}

theorem progress_start (m : Model) (r : Range) (before : Memory) :
    Progress m r before 0 (List.replicate (flashSize / m.sectorSize) false) before where
  length := by simp
  offset := .inl rfl
  marked x h := by simp [List.getElem?_replicate] at h
  covered x h1 h2 _ := by omega
  written x h1 h2 _ := by omega
  erased x h _ := by simp [List.getElem?_replicate] at h
  kept _ _ := rfl

/-- What a map says of a sector after another one was marked. -/
theorem getElem?_mark {s i : ℕ} (hs : s < sectorMap.length) :
    (sectorMap.set s true)[i]? = if s = i then some true else sectorMap[i]? := by
  rw [List.getElem?_set]
  by_cases h : s = i
  · subst h
    simp [hs]
  · simp [h]

/-- Erasing the sector of the next page, which has no page in it yet. -/
theorem Progress.erase (h : Progress m r before n sectorMap mem) (hn : n < r.size)
    (hmap : sectorMap[(r.addr.toNat + n) / m.sectorSize]? = some false) :
    Progress m r before n (sectorMap.set ((r.addr.toNat + n) / m.sectorSize) true)
      (Op.apply m (.erase ((r.pageAt n).setWidth 24)) mem) := by
  have hlen : (r.addr.toNat + n) / m.sectorSize < sectorMap.length := by
    obtain ⟨hlt, -⟩ := List.getElem?_eq_some_iff.mp hmap
    exact hlt
  have hpage := r.pageAt_toNat24 hn
  refine ⟨by rw [List.length_set, h.length], h.offset, fun x hx => ?_, fun x h1 h2 h3 => ?_,
    fun x h1 h2 h3 => ?_, fun x hx hout => ?_, fun x hx => ?_⟩
  · rw [getElem?_mark hlen] at hx
    split at hx
    · rename_i heq
      exact ⟨n, hn, heq⟩
    · exact h.marked x hx
  · rw [getElem?_mark hlen, h.covered x h1 h2 h3]
    split <;> rfl
  · -- What is written lies in another sector, which is marked.
    have hmarked := h.covered x.toNat h1 h2 h3
    rw [apply_erase, hpage, if_neg]
    · exact h.written x h1 h2 h3
    · intro heq
      rw [heq, hmap] at hmarked
      exact absurd hmarked (by decide)
  · rw [apply_erase, hpage]
    rw [getElem?_mark hlen] at hx
    split
    · rfl
    · rename_i hne
      rw [if_neg (fun heq => hne heq.symm)] at hx
      exact h.erased x hx hout
  · rw [getElem?_mark hlen] at hx
    split at hx
    · exact absurd hx (by decide)
    · rename_i hne
      rw [apply_erase, hpage, if_neg (fun heq => hne heq.symm)]
      exact h.kept x hx

/-- The number of bytes of the next page. -/
def plen (r : Range) : ℕ := if r.size > flashPageSize then flashPageSize else r.size

theorem plen_le (r : Range) : plen r ≤ flashPageSize := by
  unfold plen
  split <;> omega

theorem plen_pos (r : Range) (hn : n < r.size) : 0 < plen r := by
  unfold plen
  split
  · decide
  · omega

/-- Programming the next page, whose sector is marked. -/
theorem Progress.program (h : Progress m r before n sectorMap mem) (hn : n < r.size)
    (hmap : sectorMap[(r.addr.toNat + n) / m.sectorSize]? = some true) :
    Progress m r before (n + plen r) sectorMap
      (Op.apply m (.program ((r.pageAt n).setWidth 24) (pageBytes (fun i => r.data.byte (n + i)) (plen r))) mem) := by
  have hle := plen_le r
  have hoffset : n % flashPageSize = 0 := h.offset.resolve_right (by omega)
  have hstart : (r.addr.toNat + n) % flashPageSize = 0 := by
    have := r.aligned
    unfold flashPageSize at *
    omega
  have hpage := r.pageAt_toNat24 hn
  -- The memory after the page program.
  have hmem : ∀ x, Op.apply m (.program ((r.pageAt n).setWidth 24)
      (pageBytes (fun i => r.data.byte (n + i)) (plen r))) mem x =
        if r.addr.toNat + n ≤ x.toNat ∧ x.toNat < r.addr.toNat + n + flashPageSize then
          mem x &&& if x.toNat - (r.addr.toNat + n) < plen r then
            r.data.byte (n + (x.toNat - (r.addr.toNat + n))) else 0xff#8
        else mem x := by
    intro x
    rw [apply_program (hpage.symm ▸ hstart) (length_pageBytes _ hle), hpage, getD_pageBytes]
  -- Its page lies in a sector that is erased from here on.
  have hsector : ∀ x, r.addr.toNat + n ≤ x → x < r.addr.toNat + n + flashPageSize →
      sectorMap[x / m.sectorSize]? = some true := by
    intro x h1 h2
    rw [sector_of_page hstart h1 h2, hmap]
  refine ⟨h.length, ?_, h.marked, fun x h1 h2 h3 => ?_, fun x h1 h2 h3 => ?_, fun x hx hout => ?_,
    fun x hx => ?_⟩
  · unfold plen
    split
    · left
      unfold flashPageSize at *
      omega
    · right
      omega
  · by_cases hx : x < r.addr.toNat + n
    · exact h.covered x h1 hx h3
    · exact hsector x (by omega) (by omega)
  · rw [hmem]
    by_cases hx : x.toNat < r.addr.toNat + n
    · rw [if_neg (by omega)]
      exact h.written x h1 hx h3
    · have hin : r.addr.toNat + n ≤ x.toNat ∧ x.toNat < r.addr.toNat + n + flashPageSize := by omega
      have hff := h.erased x (hsector x.toNat hin.1 hin.2) (.inr hin.1)
      rw [if_pos hin, if_pos (by omega), hff, show n + (x.toNat - (r.addr.toNat + n)) =
        x.toNat - r.addr.toNat by omega]
      exact BitVec.allOnes_and
  · have hff := h.erased x hx (by omega)
    rw [hmem, hff]
    split
    · rw [if_neg (by omega)]
      rfl
    · rfl
  · rw [hmem, if_neg, h.kept x hx]
    rintro ⟨h1, h2⟩
    rw [hsector x.toNat h1 h2] at hx
    exact absurd hx (by decide)

/-! ## What is done -/

/-- The operations stay within the sectors of the range, and leave no byte of a marked sector
alone. -/
structure Logged (m : Model) (r : Range) (sectorMap : List Bool) (ops : List Op) : Prop where
  within : ∀ op ∈ ops, ∀ x, op.Touches m x → r.Meets m x.toNat
  whole : ∀ x : BitVec 24, sectorMap[x.toNat / m.sectorSize]? = some true → ∃ op ∈ ops, op.Touches m x

section Logged

variable {ops new : List Op}

theorem Logged.append {op : Op} (h : Logged m r sectorMap new)
    (hop : ∀ x, op.Touches m x → r.Meets m x.toNat) : Logged m r sectorMap (new ++ [op]) where
  within o ho := by
    rcases List.mem_append.mp ho with ho | ho
    · exact h.within o ho
    · obtain rfl := List.mem_singleton.mp ho
      exact hop
  whole x hx := by
    obtain ⟨o, ho, htouch⟩ := h.whole x hx
    exact ⟨o, List.mem_append_left _ ho, htouch⟩

theorem touches_erase (hn : n < r.size) {x : BitVec 24} :
    (Op.erase ((r.pageAt n).setWidth 24)).Touches m x ↔
      x.toNat / m.sectorSize = (r.addr.toNat + n) / m.sectorSize := by
  rw [← r.pageAt_toNat24 hn]
  rfl

theorem Logged.erase (h : Logged m r sectorMap new) (hn : n < r.size)
    (hlt : (r.addr.toNat + n) / m.sectorSize < sectorMap.length) :
    Logged m r (sectorMap.set ((r.addr.toNat + n) / m.sectorSize) true)
      (new ++ [.erase ((r.pageAt n).setWidth 24)]) where
  within := (h.append fun x hx => ⟨n, hn, ((touches_erase hn).mp hx).symm⟩).within
  whole x hx := by
    rw [getElem?_mark hlt] at hx
    split at hx
    · rename_i heq
      exact ⟨_, List.mem_append_right _ (List.mem_singleton_self _), (touches_erase hn).mpr heq.symm⟩
    · obtain ⟨o, ho, htouch⟩ := h.whole x hx
      exact ⟨o, List.mem_append_left _ ho, htouch⟩

theorem meets_of_program (hoffset : n % flashPageSize = 0) (hn : n < r.size) {data : List Byte} {x : BitVec 24}
    (h : (Op.program ((r.pageAt n).setWidth 24) data).Touches m x) : r.Meets m x.toNat := by
  refine ⟨n, hn, ?_⟩
  obtain ⟨hpage, -⟩ := h
  rw [r.pageAt_toNat24 hn] at hpage
  have hstart : (r.addr.toNat + n) % flashPageSize = 0 := by
    have := r.aligned
    unfold flashPageSize at *
    omega
  refine (sector_of_page hstart ?_ ?_).symm <;> unfold flashPageSize at * <;> omega

/-- The sector of the next page is erased now, or has been. -/
theorem eraseOnce_ends {erased : Bool} (wel : Bool) (ops : List Op) (h : Progress m r before n sectorMap mem)
    (hlog : Logged m r sectorMap new) (hn : n < r.size)
    (hmap : sectorMap[(r.addr.toNat + n) / m.sectorSize]? = some erased) :
    ∃ mem' wel' new', Ends (nor (m := m) (T := T)) (eraseOnce erased (r.pageAt n))
        (idle mem wel (ops ++ new)) () (idle mem' wel' (ops ++ new')) ∧
      Progress m r before n (sectorMap.set ((r.addr.toNat + n) / m.sectorSize) true) mem' ∧
      Logged m r (sectorMap.set ((r.addr.toNat + n) / m.sectorSize) true) new' := by
  obtain ⟨hlt, hget⟩ := List.getElem?_eq_some_iff.mp hmap
  cases erased with
  | true =>
    have hsame : sectorMap.set ((r.addr.toNat + n) / m.sectorSize) true = sectorMap := by
      rw [← hget]
      exact List.set_getElem_self hlt
    rw [hsame]
    exact ⟨mem, wel, new, .pure () _, h, hlog⟩
  | false =>
    refine ⟨_, false, _, ?_, h.erase hn hmap, hlog.erase hn hlt⟩
    rw [← List.append_assoc]
    exact flashWriteEnable_ends.bind (flashEraseSector_ends (r.pageAt n))

/-- One round of the page loop. -/
theorem programRound_ends (wel : Bool) (ops : List Op) (h : Progress m r before n sectorMap mem)
    (hlog : Logged m r sectorMap new) (hn : n < r.size) :
    ∃ sectorMap' mem' new', Ends (nor (m := m) (T := T))
        (programRound r.addr r.data r.size m.sectorSize (n, sectorMap)) (idle mem wel (ops ++ new))
        (.inl (n + plen r, sectorMap')) (idle mem' false (ops ++ new')) ∧
      Progress m r before (n + plen r) sectorMap' mem' ∧ Logged m r sectorMap' new' := by
  have hlt : (r.addr.toNat + n) / m.sectorSize < sectorMap.length := by
    have hfits : r.addr.toNat + r.size ≤ flashSize := r.fits
    rw [h.length]
    exact sector_lt (by omega)
  have hoffset : n % flashPageSize = 0 := h.offset.resolve_right (by omega)
  obtain ⟨erased, hmap⟩ : ∃ erased, sectorMap[(r.addr.toNat + n) / m.sectorSize]? = some erased :=
    ⟨_, List.getElem?_eq_getElem hlt⟩
  obtain ⟨mem', wel', new', herase, hprogress, hlog'⟩ := eraseOnce_ends (T := T) wel ops h hlog hn hmap
  have hmarked : (sectorMap.set ((r.addr.toNat + n) / m.sectorSize) true)[(r.addr.toNat + n) / m.sectorSize]? =
      some true := by
    rw [getElem?_mark hlt, if_pos rfl]
  refine ⟨_, _, new' ++ [.program ((r.pageAt n).setWidth 24)
    (pageBytes (fun i => r.data.byte (n + i)) (plen r))], ?_, hprogress.program hn hmarked,
    hlog'.append fun x => meets_of_program hoffset hn⟩
  rw [← List.append_assoc]
  have hplen : (if (r.size : Int) > flashPageSize then flashPageSize else (r.size : Int).toNat) = plen r := by
    unfold plen
    split <;> split <;> omega
  have hsector : (r.addr + BitVec.ofNat 32 n).toNat = r.addr.toNat + n := r.pageAt_toNat hn
  unfold programRound
  simp only [hplen, hsector, hmap, if_pos (Int.ofNat_lt.mpr hn)]
  exact herase.bind (flashWriteEnable_ends.bind ((flashProgramPage_ends (r.pageAt n) _ (plen_le r)).bind
    (.pure _ _)))

end Logged

end Progress

/-! ## The whole function -/

/-- The page loop writes the whole range. -/
theorem programLoop_ends (r : Range) (mem : Memory) (wel : Bool) (ops : List Op) :
    ∃ n sectorMap mem' wel' new, Ends (nor (m := m) (T := T))
        (loop (programRound r.addr r.data r.size m.sectorSize)
          (0, List.replicate (flashSize / m.sectorSize) false))
        (idle mem wel ops) () (idle mem' wel' (ops ++ new)) ∧
      r.size ≤ n ∧ Progress m r mem n sectorMap mem' ∧ Logged m r sectorMap new := by
  have hlog : Logged m r (List.replicate (flashSize / m.sectorSize) false) [] := by
    refine ⟨fun _ h => absurd h List.not_mem_nil, fun x hx => ?_⟩
    simp [List.getElem?_replicate] at hx
  -- The invariant of the loop, and what is left of the range.
  have hloop : ∃ b f, Ends (nor (m := m) (T := T)) (loop (programRound r.addr r.data r.size m.sectorSize)
      (0, List.replicate (flashSize / m.sectorSize) false)) (idle mem wel ops) b f ∧
        ∃ n sectorMap mem' wel' new, f = idle mem' wel' (ops ++ new) ∧ r.size ≤ n ∧
          Progress m r mem n sectorMap mem' ∧ Logged m r sectorMap new := by
    refine ends_loop (fun a f => ∃ mem' wel' new, f = idle mem' wel' (ops ++ new) ∧
      Progress m r mem a.1 a.2 mem' ∧ Logged m r a.2 new) _ (fun a _ => r.size - a.1) ?_
      ⟨mem, wel, [], by rw [List.append_nil], progress_start m r mem, hlog⟩
    rintro ⟨n, sectorMap⟩ f ⟨mem', wel', new, rfl, hprogress, hlog⟩
    by_cases hn : n < r.size
    · right
      obtain ⟨sectorMap', mem'', new', hround, hprogress', hlog'⟩ :=
        programRound_ends (T := T) wel' ops hprogress hlog hn
      have hpos := plen_pos r hn
      refine ⟨_, _, hround, ⟨mem'', false, new', rfl, hprogress', hlog'⟩, ?_⟩
      show r.size - (n + plen r) < r.size - n
      omega
    · left
      refine ⟨(), _, ?_, n, sectorMap, mem', wel', new, rfl, by omega, hprogress, hlog⟩
      unfold programRound
      simp only [if_neg (fun h => hn (Int.ofNat_lt.mp h))]
      exact .pure _ _
  obtain ⟨⟨⟩, f, hends, n, sectorMap, mem', wel', new, rfl, hdone⟩ := hloop
  exact ⟨n, sectorMap, mem', wel', new, hends, hdone⟩

/-- The verification finds what was written. -/
theorem verify_ends (r : Range) {mem : Memory} (wel : Bool) (ops : List Op)
    (hmem : ∀ x : BitVec 24, r.addr.toNat ≤ x.toNat → x.toNat < r.addr.toNat + r.size →
      mem x = r.data.byte (x.toNat - r.addr.toNat)) {n : ℕ} (hn : n ≤ r.size) (rest : List Byte)
    (hrest : rest.length = n) :
    ∃ rest', Ends (nor (m := m) (T := T)) (loop (verifyRound r.data r.size) n)
      (taking mem wel ([flashRead, addrByte r.addr 16, addrByte r.addr 8, addrByte r.addr 0] ++ rest) ops) 0
      (taking mem wel ([flashRead, addrByte r.addr 16, addrByte r.addr 8, addrByte r.addr 0] ++ rest') ops) := by
  suffices hrounds : ∃ rest', Rounds (nor (m := m) (T := T)) (verifyRound r.data r.size) n
      (taking mem wel ([flashRead, addrByte r.addr 16, addrByte r.addr 8, addrByte r.addr 0] ++ rest) ops) 0
      (taking mem wel ([flashRead, addrByte r.addr 16, addrByte r.addr 8, addrByte r.addr 0] ++ rest') ops) by
    obtain ⟨rest', hrounds⟩ := hrounds
    exact ⟨rest', hrounds.ends⟩
  obtain ⟨left, hleft⟩ : ∃ left, r.size - n = left := ⟨_, rfl⟩
  induction left generalizing n rest with
  | zero =>
    refine ⟨rest, .done ?_⟩
    unfold verifyRound
    simp only [if_neg (fun h => absurd (Int.ofNat_lt.mp h) (by omega : ¬ n < r.size))]
    exact .pure _ _
  | succ left ih =>
    have hlt : n < r.size := by omega
    have hfits : r.addr.toNat + r.size ≤ flashSize := r.fits
    obtain ⟨rest', hrounds⟩ := ih (n := n + 1) (by omega) (rest ++ [0xff#8]) (by simp [hrest]) (by omega)
    refine ⟨rest', .again ?_ hrounds⟩
    have hread := read_ends (m := m) (T := T) mem wel ops
      ([flashRead, addrByte r.addr 16, addrByte r.addr 8, addrByte r.addr 0] ++ rest)
    have haddr : (r.addr.setWidth 24 + BitVec.ofNat 24 n).toNat = r.addr.toNat + n := by
      have hsetWidth := r.pageAt_toNat24 hlt
      rwa [Range.pageAt, BitVec.setWidth_add _ _ (by decide),
        BitVec.setWidth_ofNat_of_le (by decide)] at hsetWidth
    rw [answer_read, addrByte_append, hrest, hmem _ (by omega) (by omega), haddr, Nat.add_sub_cancel_left,
      List.append_assoc] at hread
    unfold verifyRound
    simp only [if_pos (Int.ofNat_lt.mpr hlt)]
    exact hread.bind (.ret (by simp) rfl)

/-- `flash_program` with the memory for its sector map: the range is written, and nothing is
done outside of its sectors. -/
theorem flashProgram_ends (r : Range) (mem : Memory) (wel : Bool) (ops : List Op) :
    ∃ mem' wel' new, Ends (nor (m := m) (T := T)) (flashProgram true r.addr r.data r.size m.id)
        (idle mem wel ops) 0 (idle mem' wel' (ops ++ new)) ∧
      (∀ x : BitVec 24, r.addr.toNat ≤ x.toNat → x.toNat < r.addr.toNat + r.size →
        mem' x = r.data.byte (x.toNat - r.addr.toNat)) ∧
      (∀ x : BitVec 24, ¬ r.Meets m x.toNat → mem' x = mem x) ∧
      ∀ x : BitVec 24, (∃ op ∈ new, op.Touches m x) ↔ r.Meets m x.toNat := by
  obtain ⟨n, sectorMap, mem', wel', new, hloop, hn, hprogress, hlog⟩ :=
    programLoop_ends (m := m) (T := T) r mem wel ops
  have hwritten : ∀ x : BitVec 24, r.addr.toNat ≤ x.toNat → x.toNat < r.addr.toNat + r.size →
      mem' x = r.data.byte (x.toNat - r.addr.toNat) :=
    fun x h1 h2 => hprogress.written x h1 (by omega) h2
  obtain ⟨rest, hverify⟩ := verify_ends (m := m) (T := T) r wel' (ops ++ new) hwritten (Nat.zero_le _) [] rfl
  have hdeselect := spiCs_ends (m := m) (T := T) (taking mem' wel' ([flashRead, addrByte r.addr 16,
    addrByte r.addr 8, addrByte r.addr 0] ++ rest) (ops ++ new)) false
  rw [select_read] at hdeselect
  refine ⟨mem', wel', new, ?_, hwritten, fun x hx => hprogress.kept x ?_, fun x => ⟨?_, ?_⟩⟩
  · have hsector : sectorSizeOf m.id = some m.sectorSize := by cases m <;> rfl
    unfold flashProgram
    rw [hsector]
    exact hloop.bind (select_ends.bind ((byte_ends [] _).bind ((byte_ends _ _).bind ((byte_ends _ _).bind
      ((byte_ends _ _).bind (hverify.bind (hdeselect.bind (.pure _ _))))))))
  · -- A sector that the range does not meet is in the map, and not marked.
    have hlt : x.toNat / m.sectorSize < sectorMap.length := by
      rw [hprogress.length]
      exact sector_lt x.isLt
    rw [List.getElem?_eq_getElem hlt]
    cases hmark : sectorMap[x.toNat / m.sectorSize] with
    | false => rfl
    | true => exact absurd (hprogress.marked x.toNat (by rw [List.getElem?_eq_getElem hlt, hmark])) hx
  · rintro ⟨op, hop, htouch⟩
    exact hlog.within op hop x htouch
  · rintro ⟨j, hj, hsector⟩
    refine hlog.whole x ?_
    rw [← hsector]
    exact hprogress.covered _ (by omega) (by omega) (by omega)

/-- For both chips and however long they take, `flash_program` returns 0, the range holds the
data, and every byte outside of the sectors that the range meets is as it was. -/
theorem flash_program_correct (m : Model) (T : Timing) (addr : Word) (data : Buffer)
    (haligned : addr.toNat % flashPageSize = 0) (hfits : addr.toNat + data.bytes.length ≤ flashSize)
    (mem : Memory) (wel : Bool) (ops : List Op) :
    ∃ mem' wel' ops', Ends (nor (m := m) (T := T))
        (flashProgram true addr data data.bytes.length m.id) (idle mem wel ops) 0 (idle mem' wel' ops') ∧
      (∀ (i : ℕ) (hi : i < data.bytes.length), mem' (BitVec.ofNat 24 (addr.toNat + i)) = data.bytes[i]) ∧
      ∀ x : BitVec 24, (∀ i, i < data.bytes.length →
        (addr.toNat + i) / m.sectorSize ≠ x.toNat / m.sectorSize) → mem' x = mem x := by
  obtain ⟨mem', wel', new, hends, hwritten, hkept, -⟩ :=
    flashProgram_ends (m := m) (T := T) ⟨addr, data, haligned, hfits⟩ mem wel ops
  refine ⟨mem', wel', ops ++ new, hends, fun i hi => ?_, fun x hx => hkept x ?_⟩
  · have htoNat : (BitVec.ofNat 24 (addr.toNat + i)).toNat = addr.toNat + i := by
      unfold flashSize at hfits
      rw [BitVec.toNat_ofNat]
      exact Nat.mod_eq_of_lt (by omega)
    have hbyte := hwritten (BitVec.ofNat 24 (addr.toNat + i)) (by rw [htoNat]; exact Nat.le_add_right _ _)
      (by rw [htoNat]; exact Nat.add_lt_add_left hi _)
    have hget : data.byte i = data.bytes[i] := by simp [Buffer.byte, hi]
    rw [htoNat, Nat.add_sub_cancel_left] at hbyte
    exact hbyte.trans hget
  · rintro ⟨j, hj, hsector⟩
    exact hx j hj hsector

/-- A card that takes its time. -/
def slowCard : Timing := ⟨fun _ => 3, fun _ => by decide, fun _ => 2⟩

/-- Three bytes at the second page of an erased chip. -/
theorem flash_program_correct_three :
    ∃ mem' wel' ops', Ends (nor (m := .m25p128) (T := slowCard))
        (flashProgram true 0x100#32 ⟨[1#8, 2#8, 3#8], fun _ => 0#8⟩ 3 idM25p128)
        (idle (fun _ => 0xff#8) false []) 0 (idle mem' wel' ops') ∧
      (∀ (i : ℕ) (hi : i < 3), mem' (BitVec.ofNat 24 (0x100 + i)) = [1#8, 2#8, 3#8][i]) ∧
      ∀ x : BitVec 24, (∀ i, i < 3 →
        (0x100 + i) / flashSectorSizeM25p128 ≠ x.toNat / flashSectorSizeM25p128) → mem' x = 0xff#8 :=
  flash_program_correct .m25p128 slowCard 0x100#32 ⟨[1#8, 2#8, 3#8], fun _ => 0#8⟩ (by decide) (by decide)
    (fun _ => 0xff#8) false []

end Svec.Host.FlashProgram
