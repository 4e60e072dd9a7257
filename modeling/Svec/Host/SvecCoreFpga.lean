/-
  Host/SvecCoreFpga.lean --- setting up the FPGA device, `svec-core-fpga.c`.

  `svec_fpga_init` acquires one kernel resource after the other and unwinds through
  a chain of labels; `svec_fpga_exit` is to mirror it.  Which of the kernel services
  fail in a call is a parameter of the call.  The state is the list of the resources
  held, the log of those released, and what `svec_dev->svec_fpga` points to.

  Memory that is freed before its function returns (the resources of the application
  device) or that belongs to a device (the MFD cells) is left out.
-/
import Svec.Data.Bits

set_option autoImplicit false

namespace Svec.Host.SvecCoreFpga

open Svec.Data

/-! ## Resources -/

/-- What `svec_fpga_init` acquires. -/
inductive Kind where
  | allocation | ioremap | device | debugfs | vicPdev | mfdCells | fmcCarrier | appPdev
  deriving DecidableEq, Repr

/-- A resource, and the `svec_fpga` that it was acquired for. -/
structure Res where
  kind : Kind
  owner : ℕ
  deriving DecidableEq, Repr

/-- `struct svec_fpga`: which allocation it is, and which of its pointers are not NULL. -/
structure SvecFpga where
  owner : ℕ
  dbgDir : Bool
  vicPdev : Bool
  appPdev : Bool
  deriving DecidableEq, Repr

/-- The kernel, and `svec_dev->svec_fpga`. -/
structure World where
  held : List Res
  released : List Res
  allocations : ℕ
  svecFpga : Option SvecFpga
  deriving DecidableEq, Repr

/-- Before the first call. -/
def World.fresh : World := ⟨[], [], 0, none⟩

def World.acquire (w : World) (k : Kind) (f : SvecFpga) : World :=
  { w with held := ⟨k, f.owner⟩ :: w.held }

def World.release (w : World) (k : Kind) (f : SvecFpga) : World :=
  { w with held := w.held.erase ⟨k, f.owner⟩, released := w.released ++ [⟨k, f.owner⟩] }

/-! ## What the kernel and the card answer -/

/-- `EINVAL`. -/
def einval : Int := 22
/-- `ENOMEM`. -/
def enomem : Int := 12
/-- `ENODEV`. -/
def enodev : Int := 19

/-- `KERNEL_VERSION`. -/
def kernelVersion (a b c : ℕ) : ℕ := a * 65536 + b * 256 + c

/-- What the driver is built for: `LINUX_VERSION_CODE` and `SVEC_VERSION_DRV`. -/
structure Build where
  linuxVersionCode : ℕ
  svecVersionDrv : Word

/-- `struct svec_meta_id`, as far as it is read. -/
structure SvecMetaId where
  vendor : Word
  device : Word
  version : Word
  bom : Word
  cap : Word

/-- `SVEC_META_CAP_VIC`, as a bit number. -/
def svecMetaCapVicBit : ℕ := 0
/-- `SVEC_META_VENDOR_ID`. -/
def svecMetaVendorId : Word := 0x10dc#32
/-- `SVEC_META_DEVICE_ID`. -/
def svecMetaDeviceId : Word := 0x53564543#32
/-- `SVEC_META_BOM_BE`. -/
def svecMetaBomBe : Word := 0xfffe0000#32
/-- `SVEC_META_BOM_END_MASK`. -/
def svecMetaBomEndMask : Word := 0xffff0000#32
/-- `SVEC_META_BOM_VER_MASK`. -/
def svecMetaBomVerMask : Word := 0x0000ffff#32

/-- The answers in one call of `svec_fpga_init`.  A service that returns an error number
returns 0 where it succeeds, and a pointer that is an error is given by its number.  The
module parameter `version_ignore` may change between two calls. -/
structure Answers where
  versionIgnore : Bool
  resourceMem : Bool
  kzalloc : Bool
  ioremap : Bool
  metadata : SvecMetaId
  devSetName : Int
  deviceRegister : Int
  debugfsDir : Bool
  debugfsRegset : Bool
  debugfsFile : Bool
  vicPdev : Int
  devmKzalloc : Bool
  mfdAddDevices : Int
  i2cBus : ℕ → Int
  fmcCarrierRegister : Int
  kcalloc : Bool
  appOffset : Word
  appVendor : Word
  appPdev : Int

/-! ## The functions -/

/-- `svec_fpga_is_valid_version`. -/
def svecFpgaIsValidVersion (versionIgnore : Bool) (expected found : Word) : Bool :=
  if versionIgnore then true
  else if (found >>> 24 &&& 0xff#32) ≠ (expected >>> 24 &&& 0xff#32) then false
  else if (found >>> 16 &&& 0xff#32).ult (expected >>> 16 &&& 0xff#32) then false
  else true

/-- `svec_fpga_is_valid`. -/
def svecFpgaIsValid (b : Build) (versionIgnore : Bool) (m : SvecMetaId) : Bool :=
  if m.bom &&& svecMetaBomEndMask ≠ svecMetaBomBe then false
  else if m.bom &&& svecMetaBomVerMask ≠ 0#32 then false
  else if m.vendor ≠ svecMetaVendorId ∨ m.device ≠ svecMetaDeviceId then false
  else if !svecFpgaIsValidVersion versionIgnore b.svecVersionDrv m.version then false
  else true

/-- `svec_fpga_dbg_init`.  Its caller does not look at what it returns. -/
def svecFpgaDbgInit (b : Build) (a : Answers) (f : SvecFpga) (w : World) : SvecFpga × World :=
  if !a.debugfsDir then ({ f with dbgDir := false }, w)
  else
    let f := { f with dbgDir := true }
    let w := w.acquire .debugfs f
    -- Since 5.6 `debugfs_create_regset32` returns nothing.
    if b.linuxVersionCode < kernelVersion 5 6 0 ∧ !a.debugfsRegset then
      ({ f with dbgDir := false }, w.release .debugfs f)
    else if !a.debugfsFile then ({ f with dbgDir := false }, w.release .debugfs f)
    else (f, w)

/-- `svec_fpga_dbg_exit`.  Removing a NULL directory does nothing. -/
def svecFpgaDbgExit (f : SvecFpga) (w : World) : World :=
  if f.dbgDir then w.release .debugfs f else w

/-- `svec_fpga_vic_init`. -/
def svecFpgaVicInit (a : Answers) (f : SvecFpga) (w : World) : Int × SvecFpga × World :=
  if !a.metadata.cap.getLsbD svecMetaCapVicBit then (0, f, w)
  else if a.vicPdev ≠ 0 then (a.vicPdev, f, w)
  else (0, { f with vicPdev := true }, w.acquire .vicPdev f)

/-- `svec_fpga_vic_exit`. -/
def svecFpgaVicExit (f : SvecFpga) (w : World) : SvecFpga × World :=
  if f.vicPdev then ({ f with vicPdev := false }, w.release .vicPdev f) else (f, w)

/-- `svec_fpga_devices_init`.  Since 4.4 `svec_fpga_irq_find_host` follows the pointer that it
is given: without a VIC the kernel oopses, and there is no result. -/
def svecFpgaDevicesInit (b : Build) (a : Answers) (f : SvecFpga) (w : World) : Option Int × World :=
  if !a.devmKzalloc then (some (-enomem), w)
  else if kernelVersion 4 4 0 ≤ b.linuxVersionCode ∧ !f.vicPdev then (none, w)
  else if a.mfdAddDevices ≠ 0 then (some a.mfdAddDevices, w)
  else (some 0, w.acquire .mfdCells f)

/-- `svec_fpga_devices_exit`. -/
def svecFpgaDevicesExit (f : SvecFpga) (w : World) : World := w.release .mfdCells f

/-- `SVEC_FMC_SLOTS`. -/
def svecFmcSlots : ℕ := 2

/-- `svec_fmc_init`. -/
def svecFmcInit (a : Answers) (f : SvecFpga) (w : World) : Int × World :=
  if (List.range svecFmcSlots).any fun i => a.i2cBus i ≤ 0 then (-enodev, w)
  else if a.fmcCarrierRegister ≠ 0 then (a.fmcCarrierRegister, w)
  else (0, w.acquire .fmcCarrier f)

/-- `svec_fmc_exit`. -/
def svecFmcExit (f : SvecFpga) (w : World) : World := w.release .fmcCarrier f

/-- `svec_fpga_app_id_build`, as far as it can fail. -/
def svecFpgaAppIdBuild (a : Answers) : Int := if a.appVendor = 0xff000000#32 then -enodev else 0

/-- `svec_fpga_app_init`.  Without an application it succeeds. -/
def svecFpgaAppInit (a : Answers) (f : SvecFpga) (w : World) : Int × SvecFpga × World :=
  if !a.kcalloc then (-enomem, f, w)
  else if a.appOffset = 0#32 then (0, f, w)
  else if svecFpgaAppIdBuild a ≠ 0 then (svecFpgaAppIdBuild a, f, w)
  else if a.appPdev ≠ 0 then (a.appPdev, f, w)
  else (0, { f with appPdev := true }, w.acquire .appPdev f)

/-- `svec_fpga_app_exit`. -/
def svecFpgaAppExit (f : SvecFpga) (w : World) : SvecFpga × World :=
  if f.appPdev then ({ f with appPdev := false }, w.release .appPdev f) else (f, w)

section Labels

variable (err : Int) (f : SvecFpga) (w : World)

/-- `err_map`. -/
def errMap : Option Int × World := (some err, { w.release .allocation f with svecFpga := none })

/-- `err_dev`, `err_name` and `err_valid`. -/
def errValid : Option Int × World := errMap err f (w.release .ioremap f)

/-- `err_vic`. -/
def errVic : Option Int × World := (some err, w)

/-- `err_devs`. -/
def errDevs : Option Int × World := errVic err (svecFpgaVicExit f w).2

/-- `err_fmc`. -/
def errFmc : Option Int × World := errDevs err f (svecFpgaDevicesExit f w)

/-- `err_app`. -/
def errApp : Option Int × World := errFmc err f (svecFmcExit f w)

end Labels

/-- `svec_fpga_init` once the VIC is registered.  There is no result where the kernel
oopses. -/
def svecFpgaInitDevices (b : Build) (a : Answers) (f : SvecFpga) (w : World) :
    Option Int × World :=
  match svecFpgaDevicesInit b a f w with
  | (none, w) => (none, w)
  | (some err, w) =>
    if err ≠ 0 then errDevs err f w
    else
      let (err, w) := svecFmcInit a f w
      if err ≠ 0 then errFmc err f w
      else
        let (err, f, w) := svecFpgaAppInit a f w
        if err ≠ 0 then errApp err f w
        else (some 0, { w with svecFpga := some f })

/-- `svec_fpga_init` once the device is registered. -/
def svecFpgaInitRegistered (b : Build) (a : Answers) (f : SvecFpga) (w : World) :
    Option Int × World :=
  let (f, w) := svecFpgaDbgInit b a f w
  let (err, f, w) := svecFpgaVicInit a f w
  if err ≠ 0 then errVic err w else svecFpgaInitDevices b a f w

/-- `svec_fpga_init`. -/
def svecFpgaInit (b : Build) (a : Answers) (w : World) : Option Int × World :=
  if !a.resourceMem then (some (-einval), w)
  else if !a.kzalloc then (some (-enomem), w)
  else
    let f : SvecFpga := ⟨w.allocations, false, false, false⟩
    let w := { w.acquire .allocation f with allocations := w.allocations + 1 }
    if !a.ioremap then errMap (-enomem) f w
    else
      let w := w.acquire .ioremap f
      if !svecFpgaIsValid b a.versionIgnore a.metadata then errValid (-einval) f w
      else if a.devSetName ≠ 0 then errValid a.devSetName f w
      else if a.deviceRegister ≠ 0 then errValid a.deviceRegister f w
      else svecFpgaInitRegistered b a f (w.acquire .device f)

/-- `svec_fpga_exit`. -/
def svecFpgaExit (w : World) : Int × World :=
  match w.svecFpga with
  | none => (0, w)
  | some f =>
    let (f, w) := svecFpgaAppExit f w
    let w := svecFmcExit f w
    let w := svecFpgaDevicesExit f w
    let (f, w) := svecFpgaVicExit f w
    let w := svecFpgaDbgExit f w
    let w := w.release .device f
    let w := w.release .ioremap f
    let w := w.release .allocation f
    (0, { w with svecFpga := none })

/-! ## What the steps acquire and release -/

/-- From `w` to `w'` the resources `l` were acquired, and nothing else of `w` changed that a
caller can see. -/
structure Adds (l : List Res) (w w' : World) : Prop where
  held : w'.held = l ++ w.held
  svecFpga : w'.svecFpga = w.svecFpga
  allocations : w'.allocations = w.allocations

/-- The resource `k` of `f`, where `c`. -/
def SvecFpga.having (f : SvecFpga) (c : Bool) (k : Kind) : List Res :=
  if c then [⟨k, f.owner⟩] else []

/-- What the set-up holds once the VIC is registered, the last acquired first. -/
def SvecFpga.base (f : SvecFpga) : List Res :=
  f.having f.dbgDir .debugfs ++
    [⟨.device, f.owner⟩, ⟨.ioremap, f.owner⟩, ⟨.allocation, f.owner⟩]

/-- What a complete set-up holds, the last acquired first. -/
def SvecFpga.owned (f : SvecFpga) : List Res :=
  f.having f.appPdev .appPdev ++ ([⟨.fmcCarrier, f.owner⟩, ⟨.mfdCells, f.owner⟩] ++
    (f.having f.vicPdev .vicPdev ++ f.base))

theorem owner_of_mem_having {f : SvecFpga} {c : Bool} {k : Kind} {r : Res}
    (h : r ∈ f.having c k) : r = ⟨k, f.owner⟩ ∧ c = true := by
  unfold SvecFpga.having at h
  split at h
  · exact ⟨List.mem_singleton.mp h, ‹_›⟩
  · exact absurd h (List.not_mem_nil)

theorem owner_of_mem_base {f : SvecFpga} {r : Res} (h : r ∈ f.base) : r.owner = f.owner := by
  rcases List.mem_append.mp h with h | h
  · rw [(owner_of_mem_having h).1]
  · simp only [List.mem_cons, List.not_mem_nil, or_false] at h
    rcases h with rfl | rfl | rfl <;> rfl

theorem owner_of_mem_owned {f : SvecFpga} {r : Res} (h : r ∈ f.owned) : r.owner = f.owner := by
  simp only [SvecFpga.owned, List.mem_append, List.mem_cons, List.not_mem_nil, or_false] at h
  rcases h with h | (rfl | rfl) | h | h
  · rw [(owner_of_mem_having h).1]
  · rfl
  · rfl
  · rw [(owner_of_mem_having h).1]
  · exact owner_of_mem_base h

theorem owned_nodup (f : SvecFpga) : f.owned.Nodup := by
  obtain ⟨o, d, v, a⟩ := f
  cases d <;> cases v <;> cases a <;>
    simp [SvecFpga.owned, SvecFpga.base, SvecFpga.having]

/-- From `w` to `w'` the resources `l` were released, each once and the last acquired
first. -/
structure Frees (l : List Res) (w w' : World) : Prop where
  held : w.held = l ++ w'.held
  released : w'.released = w.released ++ l
  svecFpga : w'.svecFpga = w.svecFpga
  allocations : w'.allocations = w.allocations

theorem Adds.refl (w : World) : Adds [] w w := ⟨rfl, rfl, rfl⟩

theorem Adds.trans {l₁ l₂ : List Res} {w₁ w₂ w₃ : World} (h₁ : Adds l₁ w₁ w₂)
    (h₂ : Adds l₂ w₂ w₃) : Adds (l₂ ++ l₁) w₁ w₃ :=
  ⟨by rw [h₂.held, h₁.held, List.append_assoc], h₂.svecFpga.trans h₁.svecFpga,
    h₂.allocations.trans h₁.allocations⟩

theorem adds_acquire (w : World) (k : Kind) (f : SvecFpga) :
    Adds [⟨k, f.owner⟩] w (w.acquire k f) :=
  ⟨rfl, rfl, rfl⟩

theorem Frees.refl (w : World) : Frees [] w w := ⟨rfl, (List.append_nil _).symm, rfl, rfl⟩

theorem Frees.trans {l₁ l₂ : List Res} {w₁ w₂ w₃ : World} (h₁ : Frees l₁ w₁ w₂)
    (h₂ : Frees l₂ w₂ w₃) : Frees (l₁ ++ l₂) w₁ w₃ :=
  ⟨by rw [h₁.held, h₂.held, List.append_assoc],
    by rw [h₂.released, h₁.released, List.append_assoc],
    h₂.svecFpga.trans h₁.svecFpga, h₂.allocations.trans h₁.allocations⟩

theorem Frees.rest {l m : List Res} {w w' : World} (h : Frees l w w') (hw : w.held = l ++ m) :
    w'.held = m :=
  List.append_cancel_left (h.held.symm.trans hw)

/-- Releasing the resource that was acquired last. -/
theorem frees_release {w : World} {k : Kind} {f : SvecFpga} {m : List Res}
    (h : w.held = [⟨k, f.owner⟩] ++ m) : Frees [⟨k, f.owner⟩] w (w.release k f) := by
  refine ⟨?_, rfl, rfl, rfl⟩
  simp [World.release, h]

/-- A resource that is released only where it is there. -/
theorem frees_having {w : World} {k : Kind} {f : SvecFpga} {c : Bool} {m : List Res}
    (h : w.held = f.having c k ++ m) :
    Frees (f.having c k) w (if c then w.release k f else w) := by
  cases c with
  | true => exact frees_release h
  | false => exact .refl w

/-- `svec_fpga_vic_exit` releases the VIC if there is one. -/
theorem vicExit_frees {w : World} {f : SvecFpga} {m : List Res}
    (h : w.held = f.having f.vicPdev .vicPdev ++ m) :
    ∃ w', svecFpgaVicExit f w = ({ f with vicPdev := false }, w') ∧
      Frees (f.having f.vicPdev .vicPdev) w w' := by
  refine ⟨_, ?_, frees_having h⟩
  unfold svecFpgaVicExit
  split
  · rfl
  · rename_i hf
    rw [← Bool.eq_false_iff.mpr hf]

/-- `svec_fpga_app_exit` releases the application's device if there is one. -/
theorem appExit_frees {w : World} {f : SvecFpga} {m : List Res}
    (h : w.held = f.having f.appPdev .appPdev ++ m) :
    ∃ w', svecFpgaAppExit f w = ({ f with appPdev := false }, w') ∧
      Frees (f.having f.appPdev .appPdev) w w' := by
  refine ⟨_, ?_, frees_having h⟩
  unfold svecFpgaAppExit
  split
  · rfl
  · rename_i hf
    rw [← Bool.eq_false_iff.mpr hf]

/-! ## One call of `svec_fpga_init` -/

/-- The card says that it has a VIC. -/
def Answers.hasVic (a : Answers) : Bool := a.metadata.cap.getLsbD svecMetaCapVicBit

/-- The call gets as far as registering the device. -/
structure Registers (b : Build) (a : Answers) : Prop where
  resourceMem : a.resourceMem = true
  kzalloc : a.kzalloc = true
  ioremap : a.ioremap = true
  valid : svecFpgaIsValid b a.versionIgnore a.metadata = true
  devSetName : a.devSetName = 0
  deviceRegister : a.deviceRegister = 0

/-- The VIC cannot be registered. -/
def VicFails (a : Answers) : Prop := a.hasVic = true ∧ a.vicPdev ≠ 0

/-- The kernel follows the pointer to a VIC that is not there. -/
def Oopses (b : Build) (a : Answers) : Prop :=
  kernelVersion 4 4 0 ≤ b.linuxVersionCode ∧ a.hasVic = false

/-- The FMC carrier cannot be registered. -/
def FmcFails (a : Answers) : Prop :=
  (∃ i < svecFmcSlots, a.i2cBus i ≤ 0) ∨ a.fmcCarrierRegister ≠ 0

/-- The application device cannot be registered. -/
def AppFails (a : Answers) : Prop :=
  a.kcalloc = false ∨ a.appOffset ≠ 0#32 ∧ (a.appVendor = 0xff000000#32 ∨ a.appPdev ≠ 0)

/-- A service fails that is called once the device is registered. -/
def FailsLate (b : Build) (a : Answers) : Prop :=
  VicFails a ∨ a.devmKzalloc = false ∨
    ¬ Oopses b a ∧ (a.mfdAddDevices ≠ 0 ∨ FmcFails a ∨ AppFails a)

section Steps

variable (b : Build) (a : Answers) (f : SvecFpga) (w : World)

theorem dbgInit_adds :
    ∃ d w', svecFpgaDbgInit b a f w = ({ f with dbgDir := d }, w') ∧
      Adds (f.having d .debugfs) w w' := by
  unfold svecFpgaDbgInit
  have created : Adds (f.having true .debugfs) w (w.acquire .debugfs f) := adds_acquire w _ f
  have removed : Adds (f.having false .debugfs) w ((w.acquire .debugfs f).release .debugfs f) :=
    ⟨by simp [World.release, World.acquire, SvecFpga.having], rfl, rfl⟩
  split
  · exact ⟨false, w, rfl, .refl w⟩
  · dsimp only
    split
    · exact ⟨false, _, rfl, removed⟩
    split
    · exact ⟨false, _, rfl, removed⟩
    · exact ⟨true, _, rfl, created⟩

theorem vicInit_fails (h : VicFails a) : svecFpgaVicInit a f w = (a.vicPdev, f, w) := by
  obtain ⟨hv, he⟩ := h
  rw [Answers.hasVic] at hv
  simp [svecFpgaVicInit, hv, he]

theorem vicInit_adds (h : ¬ VicFails a) (hf : f.vicPdev = false) :
    ∃ w', svecFpgaVicInit a f w = (0, { f with vicPdev := a.hasVic }, w') ∧
      Adds (f.having a.hasVic .vicPdev) w w' := by
  unfold svecFpgaVicInit
  cases hv : a.hasVic with
  | false =>
    rw [Answers.hasVic] at hv
    exact ⟨w, by simp [hv, ← hf], .refl w⟩
  | true =>
    have he : a.vicPdev = 0 := by_contra fun he => h ⟨hv, he⟩
    rw [Answers.hasVic] at hv
    exact ⟨_, by simp [hv, he], adds_acquire w _ f⟩

theorem devicesInit_noMemory (h : a.devmKzalloc = false) :
    svecFpgaDevicesInit b a f w = (some (-enomem), w) := by
  simp [svecFpgaDevicesInit, h]

theorem devicesInit_oopses (h : a.devmKzalloc = true) (hf : f.vicPdev = a.hasVic)
    (ho : Oopses b a) : svecFpgaDevicesInit b a f w = (none, w) := by
  simp [svecFpgaDevicesInit, h, hf, ho.1, ho.2]

theorem devicesInit_returns (h : a.devmKzalloc = true) (hf : f.vicPdev = a.hasVic)
    (ho : ¬ Oopses b a) :
    svecFpgaDevicesInit b a f w =
      if a.mfdAddDevices ≠ 0 then (some a.mfdAddDevices, w)
      else (some 0, w.acquire .mfdCells f) := by
  have hn : ¬ (kernelVersion 4 4 0 ≤ b.linuxVersionCode ∧ (!f.vicPdev) = true) := by
    rintro ⟨hk, hv⟩
    exact ho ⟨hk, by simpa [hf] using hv⟩
  have hm : ¬ (!a.devmKzalloc) = true := by simp [h]
  rw [svecFpgaDevicesInit, if_neg hm, if_neg hn]

theorem fmcInit_fails (h : FmcFails a) : ∃ err, err ≠ 0 ∧ svecFmcInit a f w = (err, w) := by
  unfold svecFmcInit
  split
  · exact ⟨_, by decide, rfl⟩
  · rename_i hbus
    have he : a.fmcCarrierRegister ≠ 0 := by
      rcases h with ⟨i, hi, hle⟩ | he
      · exact absurd (List.any_eq_true.mpr ⟨i, List.mem_range.mpr hi, by simpa using hle⟩) hbus
      · exact he
    exact ⟨_, he, by simp [he]⟩

theorem fmcInit_succeeds (h : ¬ FmcFails a) :
    svecFmcInit a f w = (0, w.acquire .fmcCarrier f) := by
  have hbus : ¬ ((List.range svecFmcSlots).any fun i => a.i2cBus i ≤ 0) = true := by
    intro hany
    obtain ⟨i, hi, hle⟩ := List.any_eq_true.mp hany
    exact h (.inl ⟨i, List.mem_range.mp hi, by simpa using hle⟩)
  have he : a.fmcCarrierRegister = 0 := by_contra fun he => h (.inr he)
  simp [svecFmcInit, hbus, he]

theorem appInit_fails (h : AppFails a) :
    ∃ err, err ≠ 0 ∧ svecFpgaAppInit a f w = (err, f, w) := by
  unfold svecFpgaAppInit svecFpgaAppIdBuild
  rcases h with h | ⟨ho, hv | hp⟩
  · exact ⟨-enomem, by decide, by simp [h]⟩
  · cases hk : a.kcalloc with
    | false => exact ⟨-enomem, by decide, by simp⟩
    | true => exact ⟨-enodev, by decide, by simp [ho, hv, enodev]⟩
  · cases hk : a.kcalloc with
    | false => exact ⟨-enomem, by decide, by simp⟩
    | true =>
      by_cases hv : a.appVendor = 0xff000000#32
      · exact ⟨-enodev, by decide, by simp [ho, hv, enodev]⟩
      · exact ⟨a.appPdev, hp, by simp [ho, hv, hp]⟩

theorem appInit_adds (h : ¬ AppFails a) (hf : f.appPdev = false) :
    ∃ c w', svecFpgaAppInit a f w = (0, { f with appPdev := c }, w') ∧
      Adds (f.having c .appPdev) w w' := by
  simp only [AppFails, not_or, not_and, not_not, Bool.not_eq_false] at h
  obtain ⟨hk, hp⟩ := h
  unfold svecFpgaAppInit svecFpgaAppIdBuild
  by_cases ho : a.appOffset = 0#32
  · refine ⟨false, w, ?_, .refl w⟩
    rw [← hf]
    simp [hk, ho]
  · obtain ⟨hv, hp⟩ := hp ho
    exact ⟨true, _, by simp [hk, ho, hv, hp], adds_acquire w _ f⟩

end Steps

/-- The unwinding takes back the VIC, the cells and the carrier, and nothing that was
acquired before. -/
theorem errDevs_held {f : SvecFpga} {w : World} {m : List Res} (err : Int)
    (h : w.held = f.having f.vicPdev .vicPdev ++ m) :
    ∃ w', errDevs err f w = (some err, w') ∧ w'.held = m ∧ w'.svecFpga = w.svecFpga ∧
      w'.allocations = w.allocations := by
  obtain ⟨w', hexit, freed⟩ := vicExit_frees h
  refine ⟨w', ?_, freed.rest h, freed.svecFpga, freed.allocations⟩
  rw [errDevs, hexit, errVic]

theorem errFmc_held {f : SvecFpga} {w : World} {m : List Res} (err : Int)
    (h : w.held = [⟨.mfdCells, f.owner⟩] ++ (f.having f.vicPdev .vicPdev ++ m)) :
    ∃ w', errFmc err f w = (some err, w') ∧ w'.held = m ∧ w'.svecFpga = w.svecFpga ∧
      w'.allocations = w.allocations := by
  have freed := frees_release h
  obtain ⟨w', hw, held, kept, count⟩ := errDevs_held err (freed.rest h)
  exact ⟨w', hw, held, kept.trans freed.svecFpga, count.trans freed.allocations⟩

theorem errApp_held {f : SvecFpga} {w : World} {m : List Res} (err : Int)
    (h : w.held = [⟨.fmcCarrier, f.owner⟩] ++
      ([⟨.mfdCells, f.owner⟩] ++ (f.having f.vicPdev .vicPdev ++ m))) :
    ∃ w', errApp err f w = (some err, w') ∧ w'.held = m ∧ w'.svecFpga = w.svecFpga ∧
      w'.allocations = w.allocations := by
  have freed := frees_release h
  obtain ⟨w', hw, held, kept, count⟩ := errFmc_held err (freed.rest h)
  exact ⟨w', hw, held, kept.trans freed.svecFpga, count.trans freed.allocations⟩

/-- How a call ends that has registered the device.  `m` is what was held before. -/
inductive Ended (b : Build) (a : Answers) (owner count : ℕ) (before : Option SvecFpga)
    (m : List Res) : Option Int × World → Prop
  | failed (err : Int) (f : SvecFpga) (w : World) (late : FailsLate b a) (he : err ≠ 0)
      (ho : f.owner = owner) (held : w.held = f.base ++ m) (kept : w.svecFpga = before)
      (hc : w.allocations = count) : Ended b a owner count before m (some err, w)
  | oopsed (w : World) (fine : ¬ FailsLate b a) : Ended b a owner count before m (none, w)
  | done (f : SvecFpga) (w : World) (fine : ¬ FailsLate b a) (ho : f.owner = owner)
      (held : w.held = f.owned ++ m) (set : w.svecFpga = some f) (hc : w.allocations = count) :
      Ended b a owner count before m (some 0, w)

theorem initDevices_ended {b : Build} {a : Answers} {f : SvecFpga} {w : World} {m : List Res}
    (vic : ¬ VicFails a) (hv : f.vicPdev = a.hasVic) (ha : f.appPdev = false)
    (hw : w.held = f.having f.vicPdev .vicPdev ++ (f.base ++ m)) :
    Ended b a f.owner w.allocations w.svecFpga m (svecFpgaInitDevices b a f w) := by
  unfold svecFpgaInitDevices
  cases hm : a.devmKzalloc with
  | false =>
    rw [devicesInit_noMemory b a f w hm]
    dsimp only
    rw [if_pos (by decide)]
    obtain ⟨w', he, held, kept, count⟩ := errDevs_held (-enomem) hw
    exact he ▸ .failed _ f w' (.inr (.inl hm)) (by decide) rfl held kept count
  | true =>
    by_cases oops : Oopses b a
    · rw [devicesInit_oopses b a f w hm hv oops]
      refine .oopsed w ?_
      rintro (late | late | late)
      · exact vic late
      · exact absurd (hm.symm.trans late) (by decide)
      · exact late.1 oops
    rw [devicesInit_returns b a f w hm hv oops]
    by_cases mfd : a.mfdAddDevices = 0
    case neg =>
      rw [if_pos mfd]
      dsimp only
      rw [if_pos mfd]
      obtain ⟨w', he, held, kept, count⟩ := errDevs_held a.mfdAddDevices hw
      exact he ▸ .failed _ f w' (.inr (.inr ⟨oops, .inl mfd⟩)) mfd rfl held kept count
    rw [if_neg (not_not.mpr mfd)]
    dsimp only
    rw [if_neg (not_not.mpr rfl)]
    have heldMfd := (adds_acquire w .mfdCells f).held.trans (congrArg _ hw)
    by_cases fmc : FmcFails a
    · obtain ⟨err, he, hfmc⟩ := fmcInit_fails a f (w.acquire .mfdCells f) fmc
      rw [hfmc]
      dsimp only
      rw [if_pos he]
      obtain ⟨w', hw', held, kept, count⟩ := errFmc_held err heldMfd
      exact hw' ▸ .failed _ f w' (.inr (.inr ⟨oops, .inr (.inl fmc)⟩)) he rfl held kept count
    rw [fmcInit_succeeds a f _ fmc]
    dsimp only
    rw [if_neg (not_not.mpr rfl)]
    have heldFmc := (adds_acquire (w.acquire .mfdCells f) .fmcCarrier f).held.trans
      (congrArg _ heldMfd)
    by_cases app : AppFails a
    · obtain ⟨err, he, happ⟩ := appInit_fails a f _ app
      rw [happ]
      dsimp only
      rw [if_pos he]
      obtain ⟨w', hw', held, kept, count⟩ := errApp_held err heldFmc
      exact hw' ▸ .failed _ f w' (.inr (.inr ⟨oops, .inr (.inr app)⟩)) he rfl held kept count
    obtain ⟨c, w', happ, added⟩ := appInit_adds a f _ app ha
    rw [happ]
    dsimp only
    rw [if_neg (not_not.mpr rfl)]
    refine .done { f with appPdev := c } _ ?_ rfl ?_ rfl added.allocations
    · rintro (late | late | ⟨-, late | late | late⟩)
      · exact vic late
      · exact absurd (hm.symm.trans late) (by decide)
      · exact late mfd
      · exact fmc late
      · exact app late
    · calc w'.held = _ := added.held.trans (congrArg _ heldFmc)
        _ = ({ f with appPdev := c } : SvecFpga).owned ++ m := by
          simp [SvecFpga.owned, SvecFpga.having, SvecFpga.base]

theorem initRegistered_ended {b : Build} {a : Answers} {f : SvecFpga} {w : World} {m : List Res}
    (hv : f.vicPdev = false) (ha : f.appPdev = false)
    (hw : w.held = [⟨.device, f.owner⟩, ⟨.ioremap, f.owner⟩, ⟨.allocation, f.owner⟩] ++ m) :
    Ended b a f.owner w.allocations w.svecFpga m (svecFpgaInitRegistered b a f w) := by
  unfold svecFpgaInitRegistered
  obtain ⟨d, w₁, hd, addsDbg⟩ := dbgInit_adds b a f w
  have held₁ : w₁.held = { f with dbgDir := d }.base ++ m := by
    rw [addsDbg.held, hw, ← List.append_assoc]
    rfl
  rw [hd, ← addsDbg.svecFpga, ← addsDbg.allocations]
  dsimp only
  by_cases vic : VicFails a
  · rw [vicInit_fails a _ w₁ vic, if_pos vic.2]
    exact .failed _ { f with dbgDir := d } _ (.inl vic) vic.2 rfl held₁ rfl rfl
  obtain ⟨w₂, hvic, addsVic⟩ := vicInit_adds a { f with dbgDir := d } w₁ vic hv
  rw [hvic, ← addsVic.svecFpga, ← addsVic.allocations]
  dsimp only
  rw [if_neg (not_not.mpr rfl)]
  exact initDevices_ended (f := { f with dbgDir := d, vicPdev := a.hasVic }) vic rfl ha
    (addsVic.held.trans (congrArg _ held₁))

/-- A call that does not register the device takes everything back. -/
theorem init_refused {b : Build} {a : Answers} {w : World} (h : ¬ Registers b a)
    (hw : w.svecFpga = none) :
    ∃ err w', err ≠ 0 ∧ svecFpgaInit b a w = (some err, w') ∧ w'.held = w.held ∧
      w'.svecFpga = none ∧ w.allocations ≤ w'.allocations := by
  unfold svecFpgaInit
  cases mem : a.resourceMem with
  | false => exact ⟨-einval, w, by decide, rfl, rfl, hw, le_refl _⟩
  | true =>
    cases alloc : a.kzalloc with
    | false => exact ⟨-enomem, w, by decide, rfl, rfl, hw, le_refl _⟩
    | true =>
      cases map : a.ioremap with
      | false => exact ⟨-enomem, _, by decide, rfl, by simp [World.release, World.acquire], rfl,
          Nat.le_succ _⟩
      | true =>
        have undone (err : Int) (he : err ≠ 0) :
            ∃ err' w', err' ≠ 0 ∧
              errValid err ⟨w.allocations, false, false, false⟩
                (World.acquire { w.acquire .allocation ⟨w.allocations, false, false, false⟩ with
                  allocations := w.allocations + 1 } .ioremap
                  ⟨w.allocations, false, false, false⟩) = (some err', w') ∧
              w'.held = w.held ∧ w'.svecFpga = none ∧ w.allocations ≤ w'.allocations :=
          ⟨err, _, he, rfl, by simp [World.release, World.acquire], rfl, Nat.le_succ _⟩
        cases valid : svecFpgaIsValid b a.versionIgnore a.metadata with
        | false => exact undone _ (by decide)
        | true =>
          by_cases name : a.devSetName = 0
          case neg => simpa [name] using undone a.devSetName name
          by_cases reg : a.deviceRegister = 0
          case neg => simpa [name, reg] using undone a.deviceRegister reg
          exact absurd ⟨mem, alloc, map, valid, name, reg⟩ h

/-- The world in which the device has just been registered. -/
def World.registered (w : World) : World :=
  let f : SvecFpga := ⟨w.allocations, false, false, false⟩
  let w := { w.acquire .allocation f with allocations := w.allocations + 1 }
  (w.acquire .ioremap f).acquire .device f

/-- A call that registers the device. -/
theorem init_ended {b : Build} {a : Answers} (w : World) (h : Registers b a) :
    Ended b a w.allocations (w.allocations + 1) w.svecFpga w.held (svecFpgaInit b a w) := by
  have hi : svecFpgaInit b a w =
      svecFpgaInitRegistered b a ⟨w.allocations, false, false, false⟩ w.registered := by
    simp [svecFpgaInit, h.resourceMem, h.kzalloc, h.ioremap, h.valid, h.devSetName,
      h.deviceRegister, World.registered]
  rw [hi]
  exact @initRegistered_ended b a ⟨w.allocations, false, false, false⟩ w.registered w.held
    rfl rfl rfl

/-! ## The exit -/

/-- The exit releases what a complete set-up holds, in the reverse order. -/
theorem exit_frees {w : World} {f : SvecFpga} {m : List Res} (hs : w.svecFpga = some f)
    (hw : w.held = f.owned ++ m) :
    ∃ w', Frees f.owned w w' ∧ svecFpgaExit w = (0, { w' with svecFpga := none }) := by
  have hw : w.held = f.having f.appPdev .appPdev ++ ([⟨.fmcCarrier, f.owner⟩] ++
      ([⟨.mfdCells, f.owner⟩] ++ (f.having f.vicPdev .vicPdev ++
      (f.having f.dbgDir .debugfs ++ ([⟨.device, f.owner⟩] ++ ([⟨.ioremap, f.owner⟩] ++
      ([⟨.allocation, f.owner⟩] ++ m))))))) := by
    rw [hw]
    simp [SvecFpga.owned, SvecFpga.base]
  obtain ⟨w₁, happ, app⟩ := appExit_frees hw
  have fmc := frees_release (app.rest hw)
  have mfd := frees_release (fmc.rest (app.rest hw))
  have hvic := mfd.rest (fmc.rest (app.rest hw))
  obtain ⟨w₂, hv, vic⟩ : ∃ w₂, svecFpgaVicExit { f with appPdev := false }
      (svecFpgaDevicesExit { f with appPdev := false }
        (svecFmcExit { f with appPdev := false } w₁)) =
        ({ f with appPdev := false, vicPdev := false }, w₂) ∧ Frees _ _ w₂ :=
    vicExit_frees (f := { f with appPdev := false }) hvic
  have dbg := frees_having (vic.rest hvic)
  have hdev := dbg.rest (vic.rest hvic)
  have dev := frees_release hdev
  have map := frees_release (dev.rest hdev)
  have mem := frees_release (map.rest (dev.rest hdev))
  have all := app.trans (fmc.trans (mfd.trans (vic.trans (dbg.trans (dev.trans (map.trans
    mem))))))
  refine ⟨_, by simpa [SvecFpga.owned, SvecFpga.base, SvecFpga.having] using all, ?_⟩
  simp only [svecFpgaExit, hs, happ, hv]
  rfl

/-! ## Sequences of calls -/

/-- A call on the `svec_dev`. -/
inductive Call where
  | init (a : Answers)
  | exit

/-- One call. -/
def call (b : Build) (w : World) : Call → Option Int × World
  | .init a => svecFpgaInit b a w
  | .exit => ((svecFpgaExit w).1, (svecFpgaExit w).2)

/-- The calls of a sequence that are made, each with the world it starts from.  None is made
after one that does not return. -/
def executed (b : Build) : World → List Call → List (World × Call)
  | _, [] => []
  | w, c :: cs =>
    (w, c) :: match call b w c with
      | (none, _) => []
      | (some _, w') => executed b w' cs

/-- `svec_fpga_init` is called only while `svec_dev->svec_fpga` is NULL. -/
def Allowed (w : World) : Call → Prop
  | .init _ => w.svecFpga = none
  | .exit => True

instance (w : World) : (c : Call) → Decidable (Allowed w c)
  | .init _ => inferInstanceAs (Decidable (w.svecFpga = none))
  | .exit => inferInstanceAs (Decidable True)

/-- Every call of the sequence is allowed where it is made. -/
def Legal (b : Build) (cs : List Call) : Prop := ∀ x ∈ executed b .fresh cs, Allowed x.1 x.2

/-- `svec_fpga` leads to the resource. -/
def SvecFpga.Reaches (f : SvecFpga) (r : Res) : Prop :=
  r.owner = f.owner ∧
    match r.kind with
    | .debugfs => f.dbgDir = true
    | .vicPdev => f.vicPdev = true
    | .appPdev => f.appPdev = true
    | _ => True

/-- After an error nothing is held that was not held before the call; after a success
`svec_dev->svec_fpga` leads to everything that was acquired. -/
structure InitOk (w : World) (result : Option Int × World) : Prop where
  undone : ∀ err w', result = (some err, w') → err ≠ 0 →
    w'.svecFpga = none ∧ ∀ r ∈ w'.held, r ∈ w.held
  reachable : ∀ w', result = (some 0, w') →
    ∃ f, w'.svecFpga = some f ∧ ∀ r ∈ w'.held, r ∈ w.held ∨ f.Reaches r

/-- Each resource that was acquired for `svec_dev->svec_fpga` is released, and released
once; none of them is held afterwards. -/
def ExitOk (w w' : World) : Prop :=
  ∀ f, w.svecFpga = some f → w'.svecFpga = none ∧
    (∃ l : List Res, w'.released = w.released ++ l ∧ l.Nodup ∧
      ∀ r, r ∈ l ↔ r ∈ w.held ∧ r.owner = f.owner) ∧
    ∀ r ∈ w'.held, r.owner ≠ f.owner

/-- What is asked of one call. -/
def CallOk (b : Build) (w : World) : Call → Prop
  | .init a => InitOk w (svecFpgaInit b a w)
  | .exit => ExitOk w (svecFpgaExit w).2

/-- A service fails in the call that is called once the device is registered. -/
def Call.FailsLate (b : Build) : Call → Prop
  | .init a => Registers b a ∧ SvecCoreFpga.FailsLate b a
  | .exit => False

/-- What is held belongs to an allocation that was made, and what `svec_dev->svec_fpga` leads
to is what was acquired for it. -/
structure Sound (w : World) : Prop where
  made : ∀ r ∈ w.held, r.owner < w.allocations
  owns : ∀ f, w.svecFpga = some f →
    ∃ m, w.held = f.owned ++ m ∧ ∀ r ∈ m, r.owner ≠ f.owner

theorem sound_fresh : Sound .fresh :=
  ⟨fun _ h => absurd h List.not_mem_nil, fun _ h => absurd h (by simp [World.fresh])⟩

theorem reaches_of_mem_owned {f : SvecFpga} {r : Res} (h : r ∈ f.owned) : f.Reaches r := by
  refine ⟨owner_of_mem_owned h, ?_⟩
  simp only [SvecFpga.owned, SvecFpga.base, List.mem_append, List.mem_cons, List.not_mem_nil,
    or_false] at h
  rcases h with h | (rfl | rfl) | h | h | rfl | rfl | rfl
  · obtain ⟨rfl, hc⟩ := owner_of_mem_having h
    exact hc
  · trivial
  · trivial
  · obtain ⟨rfl, hc⟩ := owner_of_mem_having h
    exact hc
  · obtain ⟨rfl, hc⟩ := owner_of_mem_having h
    exact hc
  · trivial
  · trivial
  · trivial

theorem device_mem_base (f : SvecFpga) : ⟨.device, f.owner⟩ ∈ f.base :=
  List.mem_append_right _ List.mem_cons_self

section Step

variable {b : Build} {a : Answers} {w : World}

theorem Sound.exit (h : Sound w) : Sound (svecFpgaExit w).2 ∧ ExitOk w (svecFpgaExit w).2 := by
  cases hs : w.svecFpga with
  | none =>
    have hw : (svecFpgaExit w).2 = w := by simp only [svecFpgaExit, hs]
    rw [hw]
    exact ⟨h, fun f hf => absurd (hs.symm.trans hf) (by simp)⟩
  | some f =>
    obtain ⟨m, held, apart⟩ := h.owns f hs
    obtain ⟨w', freed, hw⟩ := exit_frees hs held
    have rest : w'.held = m := freed.rest held
    rw [hw]
    refine ⟨⟨?_, fun g hg => absurd hg (by simp)⟩, ?_⟩
    · intro r hr
      have hr : r ∈ m := rest ▸ hr
      rw [show ({ w' with svecFpga := none } : World).allocations = w.allocations from
        freed.allocations]
      exact h.made r (held ▸ List.mem_append_right _ hr)
    · intro g hg
      obtain rfl : f = g := Option.some.inj (hs.symm.trans hg)
      refine ⟨rfl, ⟨f.owned, freed.released, owned_nodup f, fun r => ?_⟩, ?_⟩
      · rw [held, List.mem_append]
        constructor
        · exact fun hr => ⟨.inl hr, owner_of_mem_owned hr⟩
        · rintro ⟨hr | hr, ho⟩
          · exact hr
          · exact absurd ho (apart r hr)
      · exact fun r hr => apart r (rest ▸ hr)

/-- A call of `svec_fpga_init` keeps the invariant, and it does what is asked of it exactly
if no service fails once the device is registered. -/
theorem Sound.init (h : Sound w) (free : w.svecFpga = none) :
    (∀ err w', svecFpgaInit b a w = (some err, w') → Sound w') ∧
      (InitOk w (svecFpgaInit b a w) ↔ ¬ (Registers b a ∧ FailsLate b a)) := by
  by_cases reg : Registers b a
  case neg =>
    obtain ⟨err, w', he, hi, held, none, more⟩ := init_refused reg free
    rw [hi]
    refine ⟨?_, iff_of_true ⟨?_, ?_⟩ fun both => reg both.1⟩
    · rintro _ _ ⟨⟩
      exact ⟨fun r hr => Nat.lt_of_lt_of_le (h.made r (held ▸ hr)) more,
        fun f hf => absurd (none.symm.trans hf) (by simp)⟩
    · rintro _ _ ⟨⟩ -
      exact ⟨none, fun r hr => held ▸ hr⟩
    · intro w'' hw
      exact absurd (Option.some.inj (Prod.ext_iff.mp hw).1) he
  have ended := init_ended w reg
  generalize svecFpgaInit b a w = result at ended
  cases ended with
  | failed err f w' late he ho held kept hc =>
    have mine : ⟨.device, f.owner⟩ ∈ w'.held :=
      held ▸ List.mem_append_left _ (device_mem_base f)
    refine ⟨?_, iff_of_false (fun ok => ?_) fun not => not ⟨reg, late⟩⟩
    · rintro _ _ ⟨⟩
      refine ⟨fun r hr => ?_, fun f hf => absurd ((kept.trans free).symm.trans hf) (by simp)⟩
      rw [hc]
      rcases List.mem_append.mp (held ▸ hr) with hr | hr
      · rw [owner_of_mem_base hr, ho]
        exact Nat.lt_succ_self _
      · exact Nat.lt_succ_of_lt (h.made r hr)
    · have old := h.made _ ((ok.undone err w' rfl he).2 _ mine)
      exact absurd ho (Nat.ne_of_lt old)
  | oopsed w' fine =>
    refine ⟨?_, iff_of_true ⟨?_, ?_⟩ fun both => fine both.2⟩
    · rintro _ _ ⟨⟩
    · rintro _ _ ⟨⟩
    · rintro _ ⟨⟩
  | done f w' fine ho held set hc =>
    refine ⟨?_, iff_of_true ⟨?_, ?_⟩ fun both => fine both.2⟩
    · rintro _ _ ⟨⟩
      refine ⟨fun r hr => ?_, fun g hg => ⟨w.held, ?_, fun r hr => ?_⟩⟩
      · rw [hc]
        rcases List.mem_append.mp (held ▸ hr) with hr | hr
        · rw [owner_of_mem_owned hr, ho]
          exact Nat.lt_succ_self _
        · exact Nat.lt_succ_of_lt (h.made r hr)
      · exact Option.some.inj (set.symm.trans hg) ▸ held
      · rw [← Option.some.inj (set.symm.trans hg), ho]
        exact Nat.ne_of_lt (h.made r hr)
    · rintro _ _ ⟨⟩ he
      exact absurd rfl he
    · rintro _ ⟨⟩
      refine ⟨f, set, fun r hr => ?_⟩
      rcases List.mem_append.mp (held ▸ hr) with hr | hr
      · exact .inr (reaches_of_mem_owned hr)
      · exact .inl hr

end Step

/-- Every call that is made starts from a world that satisfies the invariant. -/
theorem sound_of_executed {b : Build} {cs : List Call} {w : World} (h : Sound w)
    (legal : ∀ x ∈ executed b w cs, Allowed x.1 x.2) :
    ∀ x ∈ executed b w cs, Sound x.1 := by
  induction cs generalizing w with
  | nil => exact fun _ hx => absurd hx List.not_mem_nil
  | cons c cs ih =>
    intro x hx
    simp only [executed, List.mem_cons] at hx legal
    rcases hx with rfl | hx
    · exact h
    · cases hc : call b w c with
      | mk err w' =>
        rw [hc] at hx legal
        cases err with
        | none => exact absurd hx List.not_mem_nil
        | some err =>
          have next : Sound w' := by
            cases c with
            | init a => exact (h.init (legal _ (.inl rfl))).1 err w' hc
            | exit =>
              obtain ⟨-, rfl⟩ := Prod.ext_iff.mp hc
              exact h.exit.1
          exact ih next (fun y hy => legal y (.inr hy)) x hx

/-- Setting up the device is all or nothing in a sequence of calls exactly if in none of them
a service fails once the device is registered. -/
theorem all_or_nothing_iff (b : Build) (cs : List Call) (legal : Legal b cs) :
    (∀ x ∈ executed b .fresh cs, CallOk b x.1 x.2) ↔
      ∀ x ∈ executed b .fresh cs, ¬ x.2.FailsLate b := by
  have sound := sound_of_executed sound_fresh legal
  refine forall₂_congr fun x hx => ?_
  obtain ⟨w, c⟩ := x
  cases c with
  | init a => exact ((sound _ hx).init (legal _ hx)).2
  | exit => exact iff_of_true (sound _ hx).exit.2 not_false

/-- A card with a VIC, and no service fails. -/
def allGood : Answers where
  versionIgnore := true
  resourceMem := true
  kzalloc := true
  ioremap := true
  metadata := ⟨svecMetaVendorId, svecMetaDeviceId, 0#32, svecMetaBomBe, 1#32⟩
  devSetName := 0
  deviceRegister := 0
  debugfsDir := true
  debugfsRegset := true
  debugfsFile := true
  vicPdev := 0
  devmKzalloc := true
  mfdAddDevices := 0
  i2cBus := fun i => i + 1
  fmcCarrierRegister := 0
  kcalloc := true
  appOffset := 0#32
  appVendor := 0#32
  appPdev := 0

/-- A driver that is built for Linux 5.10. -/
def recent : Build := ⟨kernelVersion 5 10 0, 0#32⟩

theorem all_or_nothing_iff_twice :
    (∀ x ∈ executed recent .fresh [.init allGood, .exit, .init allGood, .exit],
        CallOk recent x.1 x.2) ↔
      ∀ x ∈ executed recent .fresh [.init allGood, .exit, .init allGood, .exit],
        ¬ x.2.FailsLate recent :=
  all_or_nothing_iff recent _ (by unfold Legal; decide)

/-- The VIC cannot be registered: the call returns the error and still holds the device. -/
theorem failed_vic_leaks :
    ¬ ∀ (b : Build) (cs : List Call), Legal b cs →
      ∀ x ∈ executed b .fresh cs, CallOk b x.1 x.2 := by
  intro all
  let noVic : Answers := { allGood with vicPdev := -enomem }
  have ok : InitOk .fresh (svecFpgaInit recent noVic .fresh) :=
    all recent [.init noVic] (by unfold Legal; decide) (.fresh, .init noVic) List.mem_cons_self
  obtain ⟨-, held⟩ := ok.undone (-enomem) (svecFpgaInit recent noVic .fresh).2
    (Prod.ext (by decide) rfl) (by decide)
  exact absurd (held ⟨.device, 0⟩ (by decide)) (by decide)

end Svec.Host.SvecCoreFpga
