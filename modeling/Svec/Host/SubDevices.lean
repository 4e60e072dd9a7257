/-
  Host/SubDevices.lean --- the devices behind the FPGA, and the capability mask.

  `svec_fpga_init` registers the VIC if the metadata say that there is one, and hands
  the MFD cells to the kernel: the I2C master always, the SPI master if the metadata
  say so.  The functions of `Host/SvecCoreFpga.lean` are run here beside a list of
  events: what is registered, what is handed over, and where the pointer to the VIC
  is followed.
-/
import Svec.Host.SvecCoreFpga

set_option autoImplicit false

namespace Svec.Host.SubDevices

open Svec.Data Svec.Host.SvecCoreFpga

/-- `SVEC_META_CAP_SPI`, as a bit number. -/
def svecMetaCapSpiBit : ℕ := 2

/-! ## The cells -/

/-- `IORESOURCE_MEM` or `IORESOURCE_IRQ`. -/
inductive ResourceKind where
  | mem | irq
  deriving DecidableEq, Repr

/-- `struct resource`. -/
structure Resource where
  name : String
  flags : ResourceKind
  start : ℕ
  stop : ℕ
  deriving DecidableEq, Repr

/-- `struct mfd_cell`, without the platform data. -/
structure MfdCell where
  name : String
  numResources : ℕ
  resources : List Resource
  deriving DecidableEq, Repr

/-- The resources that the kernel looks at. -/
def MfdCell.used (c : MfdCell) : List Resource := c.resources.take c.numResources

/-- `svec_fpga_fmc_i2c_res`. -/
def svecFpgaFmcI2cRes : List Resource :=
  [⟨"i2c-ocores-mem", .mem, 0xa0, 0xa0 + 0x20 - 1⟩, ⟨"i2c-ocores-irq", .irq, 0, 0⟩]

/-- `svec_fpga_spi_res`. -/
def svecFpgaSpiRes : List Resource :=
  [⟨"spi-ocores-mem", .mem, 0xc0, 0xc0 + 0x20 - 1⟩, ⟨"spi-ocores-irq", .irq, 1, 1⟩]

/-- `svec_fpga_mfd_devs[SVEC_FPGA_MFD_FMC_I2C]`. -/
def svecFpgaMfdFmcI2c : MfdCell := ⟨"i2c-ohwr", 2, svecFpgaFmcI2cRes⟩

/-- `svec_fpga_mfd_devs[SVEC_FPGA_MFD_SPI]`. -/
def svecFpgaMfdSpi : MfdCell := ⟨"spi-ocores", 2, svecFpgaSpiRes⟩

/-- `fpga_mfd_devs` with the cells of the card copied to it, and `n_mfd`. -/
def fpgaMfdDevs (cap : Word) : (ℕ → MfdCell) × ℕ :=
  let cells : ℕ → MfdCell := fun _ => ⟨"", 0, []⟩
  let cells := Function.update cells 0 svecFpgaMfdFmcI2c
  if cap.getLsbD svecMetaCapSpiBit then (Function.update cells 1 svecFpgaMfdSpi, 2) else (cells, 1)

/-- Without an interrupt domain the cells keep their first resource. -/
def removeIrqs (vicDomain : Bool) (cells : ℕ → MfdCell) : ℕ → MfdCell :=
  if vicDomain then cells
  else
    let cells := Function.update cells 0 { cells 0 with numResources := 1 }
    Function.update cells 1 { cells 1 with numResources := 1 }

/-- What is handed to `mfd_add_devices`. -/
def cellsFor (cap : Word) (vicDomain : Bool) : List MfdCell :=
  (List.range (fpgaMfdDevs cap).2).map (removeIrqs vicDomain (fpgaMfdDevs cap).1)

/-! ## The functions, with their events -/

/-- What the set-up does with the devices behind the FPGA. -/
inductive Event where
  /-- The VIC is registered. -/
  | vicRegistered
  /-- `svec_fpga_devices_init` is called. -/
  | devicesInit
  /-- `vic_pdev` is followed; it points to a device or is NULL. -/
  | followVic (there : Bool)
  /-- `mfd_add_devices` is called. -/
  | mfdAddDevices (cells : List MfdCell)
  deriving DecidableEq, Repr

/-- A result, and the events on the way to it. -/
abbrev Noted (α : Type) : Type := α × List Event

section Functions

variable (b : Build) (a : Answers) (vicDomain : Bool)

/-- `svec_fpga_vic_init`. -/
def notedVicInit (f : SvecFpga) (w : World) : Noted (Int × SvecFpga × World) :=
  if !a.metadata.cap.getLsbD svecMetaCapVicBit then ((0, f, w), [])
  else if a.vicPdev ≠ 0 then ((a.vicPdev, f, w), [])
  else ((0, { f with vicPdev := true }, w.acquire .vicPdev f), [.vicRegistered])

/-- `svec_fpga_irq_find_host`.  Before 4.4 the kernel only compares the pointer. -/
def irqFindHost (f : SvecFpga) : List Event :=
  if kernelVersion 4 4 0 ≤ b.linuxVersionCode then [.followVic f.vicPdev] else []

/-- `svec_fpga_devices_init`. -/
def notedDevicesInit (f : SvecFpga) (w : World) : Noted (Option Int × World) :=
  if !a.devmKzalloc then ((some (-enomem), w), [.devicesInit])
  else if kernelVersion 4 4 0 ≤ b.linuxVersionCode ∧ !f.vicPdev then
    ((none, w), .devicesInit :: irqFindHost b f)
  else
    let l := .devicesInit :: irqFindHost b f ++ [.mfdAddDevices (cellsFor a.metadata.cap vicDomain)]
    if a.mfdAddDevices ≠ 0 then ((some a.mfdAddDevices, w), l)
    else ((some 0, w.acquire .mfdCells f), l)

/-- `svec_fpga_app_init_res_irq`. -/
def appInitResIrq (f : SvecFpga) : List Event := if !f.vicPdev then [] else irqFindHost b f

/-- `svec_fpga_app_init`. -/
def notedAppInit (f : SvecFpga) (w : World) : Noted (Int × SvecFpga × World) :=
  if !a.kcalloc then ((-enomem, f, w), [])
  else if a.appOffset = 0#32 then ((0, f, w), [])
  else
    let l := appInitResIrq b f
    if svecFpgaAppIdBuild a ≠ 0 then ((svecFpgaAppIdBuild a, f, w), l)
    else if a.appPdev ≠ 0 then ((a.appPdev, f, w), l)
    else ((0, { f with appPdev := true }, w.acquire .appPdev f), l)

/-- `svec_fpga_init` once the VIC is registered. -/
def notedInitDevices (f : SvecFpga) (w : World) : Noted (Option Int × World) :=
  match notedDevicesInit b a vicDomain f w with
  | ((none, w), l) => ((none, w), l)
  | ((some err, w), l) =>
    if err ≠ 0 then (errDevs err f w, l)
    else
      let (err, w) := svecFmcInit a f w
      if err ≠ 0 then (errFmc err f w, l)
      else
        let ((err, f, w), l') := notedAppInit b a f w
        if err ≠ 0 then (errApp err f w, l ++ l')
        else ((some 0, { w with svecFpga := some f }), l ++ l')

/-- `svec_fpga_init` once the device is registered. -/
def notedInitRegistered (f : SvecFpga) (w : World) : Noted (Option Int × World) :=
  let (f, w) := svecFpgaDbgInit b a f w
  let ((err, f, w), l) := notedVicInit a f w
  if err ≠ 0 then (errVic err w, l)
  else ((notedInitDevices b a vicDomain f w).1, l ++ (notedInitDevices b a vicDomain f w).2)

/-- `svec_fpga_init`. -/
def notedInit (w : World) : Noted (Option Int × World) :=
  if !a.resourceMem then ((some (-einval), w), [])
  else if !a.kzalloc then ((some (-enomem), w), [])
  else
    let f : SvecFpga := ⟨w.allocations, false, false, false⟩
    let w := { w.acquire .allocation f with allocations := w.allocations + 1 }
    if !a.ioremap then (errMap (-enomem) f w, [])
    else
      let w := w.acquire .ioremap f
      if !svecFpgaIsValid b a.versionIgnore a.metadata then (errValid (-einval) f w, [])
      else if a.devSetName ≠ 0 then (errValid a.devSetName f w, [])
      else if a.deviceRegister ≠ 0 then (errValid a.deviceRegister f w, [])
      else notedInitRegistered b a vicDomain f (w.acquire .device f)

/-! ## Without the events -/

theorem notedVicInit_fst (f : SvecFpga) (w : World) : (notedVicInit a f w).1 = svecFpgaVicInit a f w := by
  unfold notedVicInit svecFpgaVicInit
  split
  · rfl
  · split <;> rfl

theorem notedDevicesInit_fst (f : SvecFpga) (w : World) :
    (notedDevicesInit b a vicDomain f w).1 = svecFpgaDevicesInit b a f w := by
  unfold notedDevicesInit svecFpgaDevicesInit
  split
  · rfl
  · split
    · rfl
    · dsimp only
      split <;> rfl

theorem notedAppInit_fst (f : SvecFpga) (w : World) : (notedAppInit b a f w).1 = svecFpgaAppInit a f w := by
  unfold notedAppInit svecFpgaAppInit
  split
  · rfl
  · split
    · rfl
    · dsimp only
      split
      · rfl
      · split <;> rfl

theorem notedInitDevices_fst (f : SvecFpga) (w : World) :
    (notedInitDevices b a vicDomain f w).1 = svecFpgaInitDevices b a f w := by
  unfold notedInitDevices svecFpgaInitDevices
  rw [← notedDevicesInit_fst b a vicDomain]
  obtain ⟨⟨ret, w⟩, l⟩ := notedDevicesInit b a vicDomain f w
  cases ret with
  | none => rfl
  | some err =>
    dsimp only
    split
    · rfl
    · obtain ⟨err, w⟩ := svecFmcInit a f w
      dsimp only
      split
      · rfl
      · rw [← notedAppInit_fst b]
        obtain ⟨⟨err, f, w⟩, l'⟩ := notedAppInit b a f w
        dsimp only
        split <;> rfl

theorem notedInitRegistered_fst (f : SvecFpga) (w : World) :
    (notedInitRegistered b a vicDomain f w).1 = svecFpgaInitRegistered b a f w := by
  unfold notedInitRegistered svecFpgaInitRegistered
  obtain ⟨f, w⟩ := svecFpgaDbgInit b a f w
  dsimp only
  rw [← notedVicInit_fst]
  obtain ⟨⟨err, f, w⟩, l⟩ := notedVicInit a f w
  dsimp only
  split
  · rfl
  · exact notedInitDevices_fst b a vicDomain f w

/-- The set-up with its events is the set-up. -/
theorem notedInit_fst (w : World) : (notedInit b a vicDomain w).1 = svecFpgaInit b a w := by
  unfold notedInit svecFpgaInit
  repeat' split
  all_goals first | rfl | exact notedInitRegistered_fst b a vicDomain _ _

/-! ## Which events there are -/

/-- The events of `svec_fpga_devices_init`, where the pointer to the VIC is `vic`. -/
def devicesEvents (vic : Bool) : List Event :=
  if !a.devmKzalloc then [.devicesInit]
  else if kernelVersion 4 4 0 ≤ b.linuxVersionCode ∧ vic = false then [.devicesInit, .followVic false]
  else
    .devicesInit :: (if kernelVersion 4 4 0 ≤ b.linuxVersionCode then [.followVic vic] else []) ++
      [.mfdAddDevices (cellsFor a.metadata.cap vicDomain)]

theorem notedDevicesInit_snd (f : SvecFpga) (w : World) :
    (notedDevicesInit b a vicDomain f w).2 = devicesEvents b a vicDomain f.vicPdev := by
  unfold notedDevicesInit devicesEvents
  split
  · rfl
  · simp only [Bool.not_eq_true', irqFindHost]
    split
    · rename_i hoops
      rw [if_pos hoops.1, hoops.2]
    · split <;> rfl

/-- The application device only follows a pointer that is not NULL. -/
theorem notedAppInit_snd {f : SvecFpga} {w : World} {e : Event} (h : e ∈ (notedAppInit b a f w).2) :
    f.vicPdev = true ∧ e = .followVic true := by
  have hres : e ∈ appInitResIrq b f := by
    unfold notedAppInit at h
    repeat' split at h
    all_goals first | exact h | exact absurd h List.not_mem_nil
  unfold appInitResIrq at hres
  split at hres
  · exact absurd hres List.not_mem_nil
  · rename_i hvic
    have hvic : f.vicPdev = true := by simpa using hvic
    rw [irqFindHost, hvic] at hres
    split at hres
    · exact ⟨hvic, List.mem_singleton.mp hres⟩
    · exact absurd hres List.not_mem_nil

/-- After the events of the devices only the application device is left. -/
theorem notedInitDevices_snd (f : SvecFpga) (w : World) :
    ∃ l, (notedInitDevices b a vicDomain f w).2 = devicesEvents b a vicDomain f.vicPdev ++ l ∧
      ∀ e ∈ l, f.vicPdev = true ∧ e = .followVic true := by
  unfold notedInitDevices
  rw [← notedDevicesInit_snd b a vicDomain f w]
  obtain ⟨⟨ret, w⟩, l⟩ := notedDevicesInit b a vicDomain f w
  have hnone : ∃ l', l = l ++ l' ∧ ∀ e ∈ l', f.vicPdev = true ∧ e = .followVic true :=
    ⟨[], (List.append_nil l).symm, fun _ he => absurd he List.not_mem_nil⟩
  cases ret with
  | none => exact hnone
  | some err =>
    dsimp only
    split
    · exact hnone
    · split
      · exact hnone
      · refine ⟨(notedAppInit b a f (svecFmcInit a f w).2).2, ?_, fun e he => notedAppInit_snd b a he⟩
        split <;> rfl

/-- The events of `svec_fpga_vic_init`, where it succeeds. -/
def vicEvents : List Event := if a.hasVic then [.vicRegistered] else []

theorem notedVicInit_snd (f : SvecFpga) (w : World) :
    (notedVicInit a f w).2 = if a.hasVic = true ∧ a.vicPdev = 0 then [.vicRegistered] else [] := by
  unfold notedVicInit Answers.hasVic
  split
  · rename_i hno
    rw [if_neg fun h => absurd (hno.symm.trans (congrArg not h.1)) (by decide)]
  · rename_i hvic
    split
    · rename_i herr
      rw [if_neg fun h => herr h.2]
    · rename_i herr
      rw [if_pos ⟨by simpa using hvic, not_not.mp herr⟩]

theorem notedVicInit_fails (h : VicFails a) (f : SvecFpga) (w : World) :
    notedVicInit a f w = ((a.vicPdev, f, w), []) := by
  refine Prod.ext ((notedVicInit_fst a f w).trans (vicInit_fails a f w h)) ?_
  rw [notedVicInit_snd, if_neg fun hok => h.2 hok.2]

theorem notedVicInit_succeeds (h : ¬ VicFails a) {f : SvecFpga} (hf : f.vicPdev = false) (w : World) :
    ∃ w', notedVicInit a f w = ((0, { f with vicPdev := a.hasVic }, w'), vicEvents a) := by
  obtain ⟨w', hinit, -⟩ := vicInit_adds a f w h hf
  have hiff : a.hasVic = true ∧ a.vicPdev = 0 ↔ a.hasVic = true :=
    ⟨And.left, fun hvic => ⟨hvic, by_contra fun herr => h ⟨hvic, herr⟩⟩⟩
  refine ⟨w', Prod.ext ((notedVicInit_fst a f w).trans hinit) ?_⟩
  rw [notedVicInit_snd, vicEvents]
  simp only [hiff]

/-- The events of a set-up that reaches `svec_fpga_devices_init`. -/
def Reached (l : List Event) : Prop :=
  ∃ l', l = vicEvents a ++ (devicesEvents b a vicDomain a.hasVic ++ l') ∧
    ∀ e ∈ l', a.hasVic = true ∧ e = .followVic true

theorem notedInitRegistered_snd {f : SvecFpga} (hf : f.vicPdev = false) (w : World)
    (hreach : .devicesInit ∈ (notedInitRegistered b a vicDomain f w).2) :
    Reached b a vicDomain (notedInitRegistered b a vicDomain f w).2 := by
  obtain ⟨dbg, w', hdbg, -⟩ := dbgInit_adds b a f w
  rw [notedInitRegistered, hdbg] at hreach ⊢
  dsimp only at hreach ⊢
  by_cases hvic : VicFails a
  · rw [notedVicInit_fails a hvic] at hreach
    dsimp only at hreach
    rw [if_pos hvic.2] at hreach
    exact absurd hreach List.not_mem_nil
  · obtain ⟨w'', hinit⟩ := notedVicInit_succeeds a hvic (f := { f with dbgDir := dbg }) hf w'
    rw [hinit]
    obtain ⟨l, hl, happ⟩ := notedInitDevices_snd b a vicDomain { f with dbgDir := dbg, vicPdev := a.hasVic } w''
    exact ⟨l, congrArg (vicEvents a ++ ·) hl, happ⟩

theorem notedInit_registers (h : Registers b a) (w : World) :
    notedInit b a vicDomain w =
      notedInitRegistered b a vicDomain ⟨w.allocations, false, false, false⟩ w.registered := by
  simp [notedInit, h.resourceMem, h.kzalloc, h.ioremap, h.valid, h.devSetName, h.deviceRegister,
    World.registered]

theorem notedInit_refused (h : ¬ Registers b a) (w : World) : (notedInit b a vicDomain w).2 = [] := by
  unfold notedInit
  split
  · rfl
  split
  · rfl
  dsimp only
  split
  · rfl
  split
  · rfl
  split
  · rfl
  split
  · rfl
  · rename_i hmem hkzalloc hmap hvalid hname hdevice
    exact absurd ⟨by simpa using hmem, by simpa using hkzalloc, by simpa using hmap, by simpa using hvalid,
      by simpa using hname, by simpa using hdevice⟩ h

theorem notedInit_snd (w : World) (hreach : .devicesInit ∈ (notedInit b a vicDomain w).2) :
    Reached b a vicDomain (notedInit b a vicDomain w).2 := by
  by_cases h : Registers b a
  · rw [notedInit_registers b a vicDomain h] at hreach ⊢
    exact notedInitRegistered_snd b a vicDomain rfl _ hreach
  · rw [notedInit_refused b a vicDomain h] at hreach
    exact absurd hreach List.not_mem_nil

end Functions

/-! ## The capability mask -/

section Cells

variable (cap : Word) (vicDomain : Bool)

/-- The I2C master, and the SPI master if there is one; without a domain they have no interrupts. -/
theorem cellsFor_eq :
    cellsFor cap vicDomain =
      (svecFpgaMfdFmcI2c :: if cap.getLsbD svecMetaCapSpiBit then [svecFpgaMfdSpi] else []).map
        fun c => if vicDomain then c else { c with numResources := 1 } := by
  unfold cellsFor fpgaMfdDevs removeIrqs
  cases cap.getLsbD svecMetaCapSpiBit <;> cases vicDomain <;> rfl

theorem cellsFor_names :
    (cellsFor cap vicDomain).map MfdCell.name =
      "i2c-ohwr" :: if cap.getLsbD svecMetaCapSpiBit then ["spi-ocores"] else [] := by
  rw [cellsFor_eq]
  cases cap.getLsbD svecMetaCapSpiBit <;> cases vicDomain <;> rfl

/-- Each cell has an interrupt for the kernel to look at exactly if there is a domain. -/
theorem cellsFor_irqs {c : MfdCell} (hc : c ∈ cellsFor cap vicDomain) :
    (∃ r ∈ c.used, r.flags = .irq) ↔ vicDomain = true := by
  rw [cellsFor_eq] at hc
  obtain ⟨d, hd, rfl⟩ := List.mem_map.mp hc
  have hmaster : d = svecFpgaMfdFmcI2c ∨ d = svecFpgaMfdSpi := by
    rcases List.mem_cons.mp hd with hd | hd
    · exact .inl hd
    · split at hd
      · exact .inr (List.mem_singleton.mp hd)
      · exact absurd hd List.not_mem_nil
  rcases hmaster with rfl | rfl <;> cases vicDomain <;> decide

end Cells

/-- What is asked of the events of a set-up that reaches `svec_fpga_devices_init`. -/
structure FollowsMask (a : Answers) (vicDomain : Bool) (l : List Event) : Prop where
  /-- The VIC is registered as the mask says. -/
  vic : .vicRegistered ∈ l ↔ a.metadata.cap.getLsbD svecMetaCapVicBit = true
  /-- The cells are handed over, unless there is no memory for them. -/
  called : a.devmKzalloc = true → ∃ cells, .mfdAddDevices cells ∈ l
  /-- There is the I2C master, and the SPI master as the mask says. -/
  names : ∀ cells, .mfdAddDevices cells ∈ l → cells.map MfdCell.name =
    "i2c-ohwr" :: if a.metadata.cap.getLsbD svecMetaCapSpiBit then ["spi-ocores"] else []
  /-- The cells have interrupts if there is a domain. -/
  irqs : ∀ cells, .mfdAddDevices cells ∈ l → ∀ c ∈ cells,
    (∃ r ∈ c.used, r.flags = .irq) ↔ vicDomain = true
  /-- The pointer to the VIC is followed only once it is registered. -/
  pointer : ∀ l₁ there l₂, l = l₁ ++ .followVic there :: l₂ → .vicRegistered ∈ l₁

section Mask

variable {b : Build} {a : Answers} {vicDomain : Bool} {l : List Event}

theorem cells_of_mem_devicesEvents {vic : Bool} {cells : List MfdCell}
    (h : .mfdAddDevices cells ∈ devicesEvents b a vicDomain vic) : cells = cellsFor a.metadata.cap vicDomain := by
  unfold devicesEvents at h
  split at h
  · simp at h
  · split at h
    · simp at h
    · split at h <;> simpa using h

theorem Reached.cells (h : Reached b a vicDomain l) {cells : List MfdCell} (hc : .mfdAddDevices cells ∈ l) :
    cells = cellsFor a.metadata.cap vicDomain := by
  obtain ⟨l', rfl, happ⟩ := h
  rcases List.mem_append.mp hc with hc | hc
  · unfold vicEvents at hc
    split at hc <;> simp at hc
  · rcases List.mem_append.mp hc with hc | hc
    · exact cells_of_mem_devicesEvents hc
    · exact absurd (happ _ hc).2 (by simp)

theorem Reached.vicRegistered_mem (h : Reached b a vicDomain l) : .vicRegistered ∈ l ↔ a.hasVic = true := by
  obtain ⟨l', rfl, happ⟩ := h
  cases hvic : a.hasVic with
  | true => simp [vicEvents, hvic]
  | false =>
    have hdevices : .vicRegistered ∉ devicesEvents b a vicDomain false := by
      unfold devicesEvents
      repeat' split
      all_goals simp
    have happ' : .vicRegistered ∉ l' := fun hmem => absurd (happ _ hmem).2 (by simp)
    simp [vicEvents, hvic, hdevices, happ']

/-- A VIC that is there is registered before anything else happens. -/
theorem Reached.registered_first (h : Reached b a vicDomain l) (hvic : a.hasVic = true) :
    ∃ l', l = .vicRegistered :: l' := by
  obtain ⟨l', rfl, -⟩ := h
  exact ⟨_, by rw [vicEvents, if_pos hvic]; rfl⟩

/-- Without one, the pointer is left alone exactly if it is not looked at. -/
theorem Reached.not_followed (h : Reached b a vicDomain l) (hvic : a.hasVic = false) :
    (∀ there, .followVic there ∉ l) ↔ b.linuxVersionCode < kernelVersion 4 4 0 ∨ a.devmKzalloc = false := by
  obtain ⟨l', rfl, happ⟩ := h
  have hnone : l' = [] := List.eq_nil_iff_forall_not_mem.mpr fun e he => by
    rw [hvic] at happ
    exact absurd (happ e he).1 Bool.false_ne_true
  rw [vicEvents, hnone, hvic, devicesEvents]
  cases hmem : a.devmKzalloc with
  | false => simp
  | true =>
    by_cases hnew : kernelVersion 4 4 0 ≤ b.linuxVersionCode
    · simp [hnew, Nat.not_lt.mpr hnew]
    · simp [hnew, Nat.not_le.mp hnew]

/-- The cells are handed over unless there is no memory, or the kernel has stopped. -/
theorem Reached.called (h : Reached b a vicDomain l) (hmem : a.devmKzalloc = true)
    (hok : a.hasVic = true ∨ b.linuxVersionCode < kernelVersion 4 4 0) : ∃ cells, .mfdAddDevices cells ∈ l := by
  obtain ⟨l', rfl, -⟩ := h
  have hfine : ¬ (kernelVersion 4 4 0 ≤ b.linuxVersionCode ∧ a.hasVic = false) := by
    rintro ⟨hnew, hvic⟩
    rcases hok with hok | hold
    · exact absurd (hvic.symm.trans hok) Bool.false_ne_true
    · exact absurd hnew (Nat.not_le.mpr hold)
  refine ⟨cellsFor a.metadata.cap vicDomain, ?_⟩
  rw [devicesEvents, if_neg (by simp [hmem]), if_neg hfine]
  simp

/-- A set-up that reaches `svec_fpga_devices_init` follows the mask exactly if there is a VIC, or
the pointer to it is not looked at. -/
theorem follows_mask_iff (b : Build) (a : Answers) (vicDomain : Bool) (w : World)
    (hreach : .devicesInit ∈ (notedInit b a vicDomain w).2) :
    FollowsMask a vicDomain (notedInit b a vicDomain w).2 ↔
      a.hasVic = true ∨ b.linuxVersionCode < kernelVersion 4 4 0 ∨ a.devmKzalloc = false := by
  have h := notedInit_snd b a vicDomain w hreach
  generalize (notedInit b a vicDomain w).2 = l at h
  constructor
  · intro hok
    cases hvic : a.hasVic with
    | true => exact .inl rfl
    | false =>
      refine .inr ((h.not_followed hvic).mp fun there hmem => ?_)
      obtain ⟨l₁, l₂, hl⟩ := List.append_of_mem hmem
      have hreg : .vicRegistered ∈ l := hl ▸ List.mem_append_left _ (hok.pointer l₁ there l₂ hl)
      exact absurd (hvic.symm.trans (h.vicRegistered_mem.mp hreg)) Bool.false_ne_true
  · intro hwhen
    refine ⟨h.vicRegistered_mem, fun hmem => h.called hmem ?_, fun cells hc => ?_, fun cells hc => ?_, ?_⟩
    · rcases hwhen with hvic | hold | hnone
      · exact .inl hvic
      · exact .inr hold
      · exact absurd (hnone.symm.trans hmem) Bool.false_ne_true
    · rw [h.cells hc]
      exact cellsFor_names _ _
    · rw [h.cells hc]
      exact fun c => cellsFor_irqs _ _
    · intro l₁ there l₂ hl
      cases hvic : a.hasVic with
      | true =>
        obtain ⟨l', hfirst⟩ := h.registered_first hvic
        rw [hfirst] at hl
        cases l₁ with
        | nil => exact absurd (List.cons.inj hl).1 (by simp)
        | cons e l₁ => exact (List.cons.inj hl).1 ▸ List.mem_cons_self
      | false =>
        rw [hvic] at hwhen
        have hnot := (h.not_followed hvic).mpr (hwhen.resolve_left Bool.false_ne_true)
        exact absurd (hl ▸ List.mem_append_right _ List.mem_cons_self) (hnot there)

theorem follows_mask_iff_recent :
    FollowsMask allGood true (notedInit recent allGood true .fresh).2 ↔
      allGood.hasVic = true ∨ recent.linuxVersionCode < kernelVersion 4 4 0 ∨ allGood.devmKzalloc = false :=
  follows_mask_iff recent allGood true .fresh (by decide)

/-- A card without a VIC, and a kernel that follows the pointer. -/
theorem missing_vic_followed :
    ¬ ∀ (b : Build) (a : Answers) (vicDomain : Bool) (w : World),
      .devicesInit ∈ (notedInit b a vicDomain w).2 → FollowsMask a vicDomain (notedInit b a vicDomain w).2 := by
  intro all
  let noVic : Answers :=
    { allGood with metadata := ⟨svecMetaVendorId, svecMetaDeviceId, 0#32, svecMetaBomBe, 0#32⟩ }
  have hpointer := (all recent noVic false .fresh (by decide)).pointer [.devicesInit] false [] (by decide)
  exact absurd hpointer (by decide)

end Mask

end Svec.Host.SubDevices
