/-
  Host/FmcBus.lean --- which I2C bus an FMC slot gets.

  The I2C master of the FPGA is muxed, and a slot's bus is one of the adapters behind
  the mux.  `svec_i2c_get_bus` in `svec-core-fpga.c` finds it by calling a filter on
  all devices of the I2C bus; the filter counts down to the slot in its own data, and
  what it returns is both the number of the adapter and the sign to stop.
-/
import Svec.Host.SvecCoreFpga

set_option autoImplicit false

namespace Svec.Host.FmcBus

open Svec.Host.SvecCoreFpga (enodev svecFmcSlots)

/-! ## The I2C bus -/

/-- The call on one element after the other, until one does not return 0. -/
def scan {σ δ : Type} (fn : δ → σ → Int × σ) (data : σ) : List δ → Int × σ
  | [] => (0, data)
  | d :: l =>
    let r := fn d data
    if r.1 ≠ 0 then r else scan fn r.2 l

/-- An adapter that another one is behind.  It has a parent, and this is the parent of that,
if there is one. -/
structure ParentAdapter where
  grandparent : Option ℕ
  deriving DecidableEq, Repr

/-- A device on the I2C bus, as the filter looks at it.  Other devices are known by a number. -/
structure Device where
  /-- Its type is `i2c_adapter_type`. -/
  isAdapter : Bool
  /-- `i2c_adapter_id`. -/
  nr : ℕ
  /-- `i2c_parent_is_i2c_adapter`. -/
  parent : Option ParentAdapter
  deriving DecidableEq, Repr

/-- The I2C bus of the kernel: its devices, and `i2c_for_each_dev`, which stops at the first
call that does not return 0. -/
structure I2cBus where
  devices : List Device
  forEachDev : {σ : Type} → σ → (Device → σ → Int × σ) → Int × σ
  forEachDev_eq : ∀ {σ : Type} (data : σ) (fn : Device → σ → Int × σ),
    forEachDev data fn = scan fn data devices

/-! ## The search -/

/-- `struct svec_i2c_filter`. -/
structure SvecI2cFilter where
  svecFpga : ℕ
  slotNr : ℕ
  deriving DecidableEq, Repr

/-- `svec_i2c_find_adapter`. -/
def svecI2cFindAdapter (dev : Device) (flt : SvecI2cFilter) : Int × SvecI2cFilter :=
  if !dev.isAdapter then (0, flt)
  else match dev.parent with
    | none => (0, flt)
    | some adapParent =>
      -- We have a muxed I2C master.
      if some flt.svecFpga ≠ adapParent.grandparent then (0, flt)
      -- We want the following one.
      else if flt.slotNr > 0 then (0, { flt with slotNr := flt.slotNr - 1 })
      else ((dev.nr : Int), flt)

/-- `svec_i2c_get_bus`. -/
def svecI2cGetBus (bus : I2cBus) (flt : SvecI2cFilter) : Int := (bus.forEachDev flt svecI2cFindAdapter).1

/-! ## The slots -/

/-- `struct fmc_slot_info`. -/
structure FmcSlotInfo where
  i2cBusNr : Int
  ga : ℕ
  lun : ℕ
  deriving DecidableEq, Repr

/-- `slot_info` of a new `struct svec_fpga`. -/
def noSlots : ℕ → FmcSlotInfo := fun _ => ⟨0, 0, 0⟩

/-- The loop of `svec_fmc_init`, with the number of rounds that are left. -/
def slotLoop (bus : I2cBus) (svecFpga : ℕ) : ℕ → ℕ → (ℕ → FmcSlotInfo) → Int × (ℕ → FmcSlotInfo)
  | 0, _, slots => (0, slots)
  | n + 1, i, slots =>
    let nr := svecI2cGetBus bus ⟨svecFpga, i⟩
    if nr ≤ 0 then (-enodev, Function.update slots i { slots i with i2cBusNr := nr })
    else slotLoop bus svecFpga n (i + 1) (Function.update slots i ⟨nr, i, i + 1⟩)

/-- `svec_fmc_init`, where `fmc_carrier_register` returns `err`. -/
def svecFmcInit (bus : I2cBus) (svecFpga : ℕ) (err : Int) : Int × (ℕ → FmcSlotInfo) :=
  let (ret, slots) := slotLoop bus svecFpga svecFmcSlots 0 noSlots
  if ret ≠ 0 then (ret, slots) else (err, slots)

/-! ## What is found -/

/-- The device is a muxed adapter of the FPGA. -/
def IsMuxed (svecFpga : ℕ) (d : Device) : Bool :=
  d.isAdapter && d.parent.any fun p => p.grandparent = some svecFpga

/-- The muxed adapters of the FPGA, in their order. -/
def muxed (bus : I2cBus) (svecFpga : ℕ) : List Device := bus.devices.filter (IsMuxed svecFpga)

/-- The first number that is not 0, or 0. -/
def firstNonzero (l : List Device) : ℕ := ((l.find? fun d => d.nr ≠ 0).map Device.nr).getD 0

theorem findAdapter_other {svecFpga : ℕ} {d : Device} (h : IsMuxed svecFpga d = false) (n : ℕ) :
    svecI2cFindAdapter d ⟨svecFpga, n⟩ = (0, ⟨svecFpga, n⟩) := by
  unfold svecI2cFindAdapter
  split
  · rfl
  · rename_i hadapter
    split
    · rfl
    · rename_i p hparent
      have hne : some svecFpga ≠ p.grandparent := by
        intro heq
        simp_all [IsMuxed]
      rw [if_pos hne]

theorem findAdapter_muxed {svecFpga : ℕ} {d : Device} (h : IsMuxed svecFpga d = true) (n : ℕ) :
    svecI2cFindAdapter d ⟨svecFpga, n⟩ =
      if n > 0 then (0, ⟨svecFpga, n - 1⟩) else ((d.nr : Int), ⟨svecFpga, n⟩) := by
  rw [IsMuxed, Bool.and_eq_true, Option.any_eq_true] at h
  obtain ⟨hadapter, p, hparent, hgrand⟩ := h
  have hgrand : ¬ some svecFpga ≠ p.grandparent := not_not.mpr (of_decide_eq_true hgrand).symm
  rw [svecI2cFindAdapter, hadapter, hparent]
  simp only [Bool.not_true, Bool.false_eq_true, if_false, if_neg hgrand]

/-- The search skips as many muxed adapters as it is told to, and then those whose number
is 0. -/
theorem scan_findAdapter (svecFpga : ℕ) (l : List Device) (n : ℕ) :
    (scan svecI2cFindAdapter ⟨svecFpga, n⟩ l).1 =
      (firstNonzero ((l.filter (IsMuxed svecFpga)).drop n) : Int) := by
  induction l generalizing n with
  | nil =>
    rw [List.filter_nil, List.drop_nil]
    rfl
  | cons d l ih =>
    rw [scan]
    cases h : IsMuxed svecFpga d with
    | false =>
      rw [findAdapter_other h, List.filter_cons_of_neg (by rw [h]; exact Bool.false_ne_true)]
      exact ih n
    | true =>
      rw [findAdapter_muxed h, List.filter_cons_of_pos h]
      cases n with
      | succ n => exact ih n
      | zero =>
        rw [List.drop_zero, firstNonzero]
        by_cases hnr : d.nr = 0
        · -- The adapter itself is skipped, and so the search goes on.
          rw [List.find?_cons_of_neg (by simp [hnr])]
          simp only [gt_iff_lt, Nat.lt_irrefl, if_false, hnr]
          exact ih 0
        · rw [List.find?_cons_of_pos (by simp [hnr])]
          simp [hnr]

theorem getBus_eq (bus : I2cBus) (svecFpga n : ℕ) :
    svecI2cGetBus bus ⟨svecFpga, n⟩ = (firstNonzero ((muxed bus svecFpga).drop n) : Int) := by
  rw [svecI2cGetBus, bus.forEachDev_eq]
  exact scan_findAdapter svecFpga bus.devices n

section Slots

variable (bus : I2cBus) (svecFpga : ℕ)

/-- No two adapters have the same number. -/
def DistinctNrs : Prop := ((bus.devices.filter Device.isAdapter).map Device.nr).Nodup

instance : Decidable (DistinctNrs bus) := inferInstanceAs (Decidable (List.Nodup _))

theorem muxed_distinct (h : DistinctNrs bus) : ((muxed bus svecFpga).map Device.nr).Nodup := by
  have hmuxed : muxed bus svecFpga =
      (bus.devices.filter Device.isAdapter).filter fun d => d.parent.any fun p => p.grandparent = some svecFpga := by
    rw [List.filter_filter]
    exact List.filter_congr fun d _ => Bool.and_comm _ _
  rw [hmuxed]
  exact (List.filter_sublist.map Device.nr).nodup h

variable {bus svecFpga}

theorem drop_muxed {i : ℕ} {a : Device} (ha : (muxed bus svecFpga)[i]? = some a) :
    (muxed bus svecFpga).drop i = a :: (muxed bus svecFpga).drop (i + 1) := by
  obtain ⟨hi, rfl⟩ := List.getElem?_eq_some_iff.mp ha
  exact List.drop_eq_getElem_cons hi

/-- A slot gets the bus that is meant, if its number is not 0. -/
theorem getBus_of_ne_zero {i : ℕ} {a : Device} (ha : (muxed bus svecFpga)[i]? = some a) (hnr : a.nr ≠ 0) :
    svecI2cGetBus bus ⟨svecFpga, i⟩ = (a.nr : Int) := by
  rw [getBus_eq, drop_muxed ha, firstNonzero, List.find?_cons_of_pos (by simp [hnr])]
  rfl

theorem nr_inj (h : DistinctNrs bus) {i j : ℕ} {a b : Device} (ha : (muxed bus svecFpga)[i]? = some a)
    (hb : (muxed bus svecFpga)[j]? = some b) (hnr : a.nr = b.nr) : i = j := by
  have hi : i < ((muxed bus svecFpga).map Device.nr).length := by
    rw [List.length_map]
    exact (List.getElem?_eq_some_iff.mp ha).1
  refine (List.getElem?_inj hi (muxed_distinct bus svecFpga h)).mp ?_
  rw [List.getElem?_map, List.getElem?_map, ha, hb, Option.map_some, Option.map_some, hnr]

/-- Where the adapter that is meant has number 0, the slot gets the bus of the next one. -/
theorem getBus_of_zero (h : DistinctNrs bus) {i : ℕ} {a b : Device} (ha : (muxed bus svecFpga)[i]? = some a)
    (hnr : a.nr = 0) (hb : (muxed bus svecFpga)[i + 1]? = some b) :
    svecI2cGetBus bus ⟨svecFpga, i⟩ = svecI2cGetBus bus ⟨svecFpga, i + 1⟩ := by
  have hne : b.nr ≠ 0 := fun hzero => absurd (nr_inj h ha hb (hnr.trans hzero.symm)) (Nat.succ_ne_self i).symm
  rw [getBus_of_ne_zero hb hne, getBus_eq, drop_muxed ha, drop_muxed hb, firstNonzero,
    List.find?_cons_of_neg (by simp [hnr]), List.find?_cons_of_pos (by simp [hne])]
  rfl

/-! ## What is assigned -/

/-- The loop assigns a bus to each of its slots if it finds one for each. -/
theorem slotLoop_assigns {n i : ℕ} (slots : ℕ → FmcSlotInfo)
    (h : ∀ j, i ≤ j → j < i + n → 0 < svecI2cGetBus bus ⟨svecFpga, j⟩) :
    slotLoop bus svecFpga n i slots = (0, fun j =>
      if i ≤ j ∧ j < i + n then ⟨svecI2cGetBus bus ⟨svecFpga, j⟩, j, j + 1⟩ else slots j) := by
  induction n generalizing i slots with
  | zero =>
    refine Prod.ext rfl (funext fun j => ?_)
    dsimp only
    rw [if_neg (by omega)]
    rfl
  | succ n ih =>
    rw [slotLoop]
    dsimp only
    rw [if_neg (Int.not_le.mpr (h i (Nat.le_refl i) (by omega))), ih _ fun j hj hlt => h j (by omega) (by omega)]
    refine Prod.ext rfl (funext fun j => ?_)
    by_cases hj : j = i
    · subst hj
      dsimp only
      rw [if_neg (by omega), if_pos (by omega), Function.update_self]
    · have hiff : i + 1 ≤ j ∧ j < i + 1 + n ↔ i ≤ j ∧ j < i + (n + 1) := by omega
      simp only [hiff, Function.update_of_ne hj]

/-- From the first slot on. -/
theorem slotLoop_assigns_all {n : ℕ} (slots : ℕ → FmcSlotInfo)
    (h : ∀ j < n, 0 < svecI2cGetBus bus ⟨svecFpga, j⟩) :
    slotLoop bus svecFpga n 0 slots =
      (0, fun j => if j < n then ⟨svecI2cGetBus bus ⟨svecFpga, j⟩, j, j + 1⟩ else slots j) := by
  have hfrom : ∀ j, 0 ≤ j → j < 0 + n → 0 < svecI2cGetBus bus ⟨svecFpga, j⟩ := fun j _ hj => h j (by omega)
  simpa only [Nat.zero_le, true_and, Nat.zero_add] using slotLoop_assigns slots hfrom

/-- It gives up if there is none for one of them. -/
theorem slotLoop_gives_up {n i : ℕ} (slots : ℕ → FmcSlotInfo)
    (h : ∃ j, i ≤ j ∧ j < i + n ∧ svecI2cGetBus bus ⟨svecFpga, j⟩ ≤ 0) :
    (slotLoop bus svecFpga n i slots).1 = -enodev := by
  induction n generalizing i slots with
  | zero =>
    obtain ⟨j, hj, hlt, -⟩ := h
    exact absurd hlt (by omega)
  | succ n ih =>
    rw [slotLoop]
    dsimp only
    split
    · rfl
    · rename_i hpos
      obtain ⟨j, hj, hlt, hle⟩ := h
      have hne : j ≠ i := fun heq => hpos (heq ▸ hle)
      exact ih _ ⟨j, by omega, by omega, hle⟩

/-- The slots get the buses that are meant, and these are different. -/
structure EachSlotItsOwn (bus : I2cBus) (svecFpga : ℕ) : Prop where
  found : ∀ i < svecFmcSlots, ∀ a, (muxed bus svecFpga)[i]? = some a →
    svecI2cGetBus bus ⟨svecFpga, i⟩ = (a.nr : Int)
  assigned : ∀ err, (svecFmcInit bus svecFpga err).1 = err ∧ ∀ i < svecFmcSlots, ∀ j < svecFmcSlots, i ≠ j →
    ((svecFmcInit bus svecFpga err).2 i).i2cBusNr ≠ ((svecFmcInit bus svecFpga err).2 j).i2cBusNr

/-- With enough muxed adapters, each slot gets its own bus exactly if none of the adapters that
are meant has number 0. -/
theorem each_slot_its_own_iff (hdistinct : DistinctNrs bus)
    (henough : svecFmcSlots ≤ (muxed bus svecFpga).length) :
    EachSlotItsOwn bus svecFpga ↔
      ∀ i < svecFmcSlots, ∀ a, (muxed bus svecFpga)[i]? = some a → a.nr ≠ 0 := by
  constructor
  · intro h i hi a ha hzero
    -- Number 0 is what a search without a result returns.
    have hbus := h.found i hi a ha
    rw [hzero] at hbus
    have hret := (h.assigned 0).1
    have hloop := slotLoop_gives_up (n := svecFmcSlots) noSlots
      ⟨i, Nat.zero_le i, (Nat.zero_add _).symm ▸ hi, Int.le_of_eq hbus⟩
    rw [svecFmcInit] at hret
    dsimp only at hret
    rw [if_pos (by rw [hloop]; decide)] at hret
    exact absurd (hloop.symm.trans hret) (by decide)
  · intro h
    have hmuxed : ∀ i < svecFmcSlots, ∃ a, (muxed bus svecFpga)[i]? = some a := fun i hi =>
      ⟨_, List.getElem?_eq_getElem (Nat.lt_of_lt_of_le hi henough)⟩
    have hfound : ∀ i < svecFmcSlots, ∀ a, (muxed bus svecFpga)[i]? = some a →
        svecI2cGetBus bus ⟨svecFpga, i⟩ = (a.nr : Int) := fun i hi a ha => getBus_of_ne_zero ha (h i hi a ha)
    have hpos : ∀ j < svecFmcSlots, 0 < svecI2cGetBus bus ⟨svecFpga, j⟩ := by
      intro j hj
      obtain ⟨a, ha⟩ := hmuxed j hj
      have hne := h j hj a ha
      rw [hfound j hj a ha]
      omega
    refine ⟨hfound, fun err => ?_⟩
    rw [svecFmcInit, slotLoop_assigns_all noSlots hpos]
    refine ⟨rfl, fun i hi j hj hij heq => ?_⟩
    obtain ⟨a, ha⟩ := hmuxed i hi
    obtain ⟨b, hb⟩ := hmuxed j hj
    simp only [ne_eq, not_true_eq_false, if_false, if_pos hi, if_pos hj, hfound i hi a ha, hfound j hj b hb]
      at heq
    exact hij (nr_inj hdistinct ha hb (Int.ofNat_inj.mp heq))

/-- It returns what the set-up of the device takes it to return. -/
theorem fmcInit_returns (a : SvecCoreFpga.Answers) (f : SvecCoreFpga.SvecFpga) (w : SvecCoreFpga.World)
    (h : ∀ i, a.i2cBus i = svecI2cGetBus bus ⟨svecFpga, i⟩) :
    (svecFmcInit bus svecFpga a.fmcCarrierRegister).1 = (SvecCoreFpga.svecFmcInit a f w).1 := by
  rw [svecFmcInit, SvecCoreFpga.svecFmcInit]
  by_cases hany : ((List.range svecFmcSlots).any fun i => a.i2cBus i ≤ 0) = true
  · obtain ⟨i, hi, hle⟩ := List.any_eq_true.mp hany
    have hle := of_decide_eq_true hle
    rw [h] at hle
    have hloop := slotLoop_gives_up (n := svecFmcSlots) noSlots
      ⟨i, Nat.zero_le i, (Nat.zero_add _).symm ▸ List.mem_range.mp hi, hle⟩
    dsimp only
    rw [if_pos hany, if_pos (by rw [hloop]; decide), hloop]
  · have hpos : ∀ j < svecFmcSlots, 0 < svecI2cGetBus bus ⟨svecFpga, j⟩ := by
      intro j hj
      by_contra hle
      rw [← h] at hle
      exact hany (List.any_eq_true.mpr ⟨j, List.mem_range.mpr hj, decide_eq_true (Int.not_lt.mp hle)⟩)
    rw [if_neg hany, slotLoop_assigns_all noSlots hpos]
    by_cases herr : a.fmcCarrierRegister = 0
    · simp [herr]
    · simp [herr]

end Slots

/-- A bus with the given devices. -/
def I2cBus.of (devices : List Device) : I2cBus := ⟨devices, fun data fn => scan fn data devices, fun _ _ => rfl⟩

/-- The master of the FPGA 7 has number `nr`, the two adapters behind its mux `nr0` and `nr1`, and there
is an EEPROM. -/
def svecBus (nr nr0 nr1 : ℕ) : I2cBus :=
  .of [⟨true, nr, none⟩, ⟨true, nr0, some ⟨some 7⟩⟩, ⟨false, 0, some ⟨some 7⟩⟩, ⟨true, nr1, some ⟨some 7⟩⟩]

theorem each_slot_its_own_iff_two :
    EachSlotItsOwn (svecBus 0 1 2) 7 ↔
      ∀ i < svecFmcSlots, ∀ a, (muxed (svecBus 0 1 2) 7)[i]? = some a → a.nr ≠ 0 :=
  each_slot_its_own_iff (by decide) (by decide)

/-- The first adapter behind the mux has number 0: both slots get the bus of the second. -/
theorem slots_share_a_bus :
    ¬ ∀ (bus : I2cBus) (svecFpga : ℕ), DistinctNrs bus → svecFmcSlots ≤ (muxed bus svecFpga).length →
      EachSlotItsOwn bus svecFpga := by
  intro hall
  have hown := hall (svecBus 1 0 2) 7 (by decide) (by decide)
  have hfound := hown.found 0 (by decide) ⟨true, 0, some ⟨some 7⟩⟩ (by decide)
  exact absurd hfound (by decide)

end Svec.Host.FmcBus
