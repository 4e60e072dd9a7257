/-
  Host/AppId.lean --- the name of an application's platform device.

  `svec_fpga_app_id_build` in `svec-core-fpga.c` makes the name from the vendor and
  the device in the application's metadata.  It reads them little-endian, so that the
  bytes of its variables are in the order of the text; the driver's own copy of the
  metadata is read big-endian.  The host is little-endian.
-/
import Svec.Data.Text
import Svec.Host.Metadata
import Svec.Host.SvecCoreFpga

set_option autoImplicit false

namespace Svec.Host.AppId

open Svec.Data Svec.Host.Metadata
open Svec.Host.SvecCoreFpga (enodev)

/-- `SVEC_FPGA_APP_NAME_MAX`. -/
def svecFpgaAppNameMax : ℕ := 47

/-- The marker of a vendor that is given by its UUID. -/
def vendorUuid : Word := 0xff000000#32

/-- `svec_fpga_app_id_build`: what it returns, and the string in `id`. -/
def svecFpgaAppIdBuild (m : ByteMemory) (fpga appOff size : ℕ) : Int × Text :=
  let vendor := ioread32 m (fpga + appOff + Member.vendor.fpgaMeta)
  let device := ioread32 m (fpga + appOff + Member.device.fpgaMeta)
  if vendor = vendorUuid then (-enodev, [])
  else (0, ("id:".toList ++ hexBytes (storedBytes .little vendor) ++
    hexBytes (storedBytes .little device)).take (size - 1))

/-- `id` as `svec_fpga_app_init` has it built. -/
def appId (m : ByteMemory) (fpga appOff : ℕ) : Int × Text :=
  svecFpgaAppIdBuild m fpga appOff svecFpgaAppNameMax

/-- It fails where the set-up of the device expects it to. -/
theorem appId_fails (m : ByteMemory) (fpga appOff : ℕ) (a : SvecCoreFpga.Answers)
    (h : a.appVendor = ioread32 m (fpga + appOff)) :
    (appId m fpga appOff).1 = SvecCoreFpga.svecFpgaAppIdBuild a := by
  have hret : (appId m fpga appOff).1 =
      if ioread32 m (fpga + appOff) = vendorUuid then -enodev else 0 := apply_ite Prod.fst _ _ _
  rw [hret, SvecCoreFpga.svecFpgaAppIdBuild, h]
  rfl

/-- `meta_app`, as `svec_fpga_app_init` has it read before. -/
def metaApp (m : ByteMemory) (fpga appOff : ℕ) (metaTmp : ℕ → Word) : SvecMetaId :=
  svecFpgaMetadataGet m (fpga + appOff) metaTmp

/-- The name that the metadata call for. -/
def nameOf (s : SvecMetaId) : Text := "id:".toList ++ hex8 s.vendor ++ hex8 s.device

theorem nameOf_length (s : SvecMetaId) : (nameOf s).length = 19 := rfl

/-- The bytes of a swapped word in the host's memory are the digits of the word. -/
theorem hexBytes_stored (w : Word) : hexBytes (storedBytes .little (byteSwap w)) = hex8 w :=
  congrArg hexBytes (leBytes_byteSwap w)

/-- The name tells vendor and device. -/
theorem nameOf_inj {s t : SvecMetaId} (h : nameOf s = nameOf t) : s.vendor = t.vendor ∧ s.device = t.device := by
  unfold nameOf at h
  simp only [List.append_assoc] at h
  obtain ⟨hvendor, h⟩ := hex8_delimits (List.append_cancel_left h)
  exact ⟨hvendor, hex8_injective h⟩

section Build

variable (m : ByteMemory) (fpga appOff : ℕ) (metaTmp : ℕ → Word)

/-- Read little-endian, a word of the metadata is the driver's own copy swapped. -/
theorem ioread32_member (f : Member) (h : f.fpgaMeta = f.offset) :
    ioread32 m (fpga + appOff + f.fpgaMeta) = byteSwap ((metaApp m fpga appOff metaTmp).get f) := by
  rw [metaApp, metadataGet_get, h]
  exact load32_little m _

/-- The words of the metadata are those of the name; the marker is looked for in the swapped
vendor. -/
theorem appId_eq : appId m fpga appOff =
    if byteSwap (metaApp m fpga appOff metaTmp).vendor = vendorUuid then (-enodev, [])
    else (0, nameOf (metaApp m fpga appOff metaTmp)) := by
  have hfits : (nameOf (metaApp m fpga appOff metaTmp)).take (svecFpgaAppNameMax - 1) =
      nameOf (metaApp m fpga appOff metaTmp) := by
    refine List.take_of_length_le ?_
    rw [nameOf_length]
    decide
  have hvendor := ioread32_member m fpga appOff metaTmp .vendor rfl
  have hdevice := ioread32_member m fpga appOff metaTmp .device rfl
  unfold appId svecFpgaAppIdBuild
  dsimp only
  rw [hvendor, hdevice, hexBytes_stored, hexBytes_stored]
  show (if byteSwap (metaApp m fpga appOff metaTmp).vendor = vendorUuid then (-enodev, [])
    else (0, (nameOf (metaApp m fpga appOff metaTmp)).take (svecFpgaAppNameMax - 1))) = _
  rw [hfits]

/-- Where there is a name, it is that of the metadata. -/
theorem appId_name {m : ByteMemory} {fpga appOff : ℕ} {metaTmp : ℕ → Word} (h : (appId m fpga appOff).1 = 0) :
    (appId m fpga appOff).2 = nameOf (metaApp m fpga appOff metaTmp) := by
  rw [appId_eq m fpga appOff metaTmp] at h ⊢
  split at h
  · exact absurd h (by decide)
  · rename_i hne
    rw [if_neg hne]

theorem marker_swapped {w : Word} : byteSwap w = vendorUuid ↔ w = 0x000000ff#32 := by
  constructor
  · intro h
    rw [← byteSwap_byteSwap w, h]
    rfl
  · rintro rfl
    rfl

/-- The name is refused for the UUID marker, and is otherwise that of the metadata. -/
structure Agrees : Prop where
  refused : (appId m fpga appOff).1 = -enodev ↔ (metaApp m fpga appOff metaTmp).vendor = vendorUuid
  name : (metaApp m fpga appOff metaTmp).vendor ≠ vendorUuid →
    appId m fpga appOff = (0, nameOf (metaApp m fpga appOff metaTmp))

/-- The name agrees with the metadata exactly if the vendor is neither the marker nor the marker
swapped; and two applications with a name share it only if vendor and device are the same. -/
theorem app_id_agrees_iff :
    (Agrees m fpga appOff metaTmp ↔ (metaApp m fpga appOff metaTmp).vendor ≠ vendorUuid ∧
      (metaApp m fpga appOff metaTmp).vendor ≠ 0x000000ff#32) ∧
    ∀ (m' : ByteMemory) (fpga' appOff' : ℕ) (metaTmp' : ℕ → Word),
      (appId m fpga appOff).1 = 0 → (appId m' fpga' appOff').1 = 0 →
      (appId m fpga appOff).2 = (appId m' fpga' appOff').2 →
        (metaApp m fpga appOff metaTmp).vendor = (metaApp m' fpga' appOff' metaTmp').vendor ∧
          (metaApp m fpga appOff metaTmp).device = (metaApp m' fpga' appOff' metaTmp').device := by
  constructor
  · have hok : (0 : Int) ≠ -enodev := by decide
    have hswap := marker_swapped (w := (metaApp m fpga appOff metaTmp).vendor)
    constructor
    · intro h
      constructor
      · intro hmarker
        -- The marker itself is taken for a vendor.
        have hret := h.refused.mpr hmarker
        rw [appId_eq m fpga appOff metaTmp, hmarker, if_neg (by decide)] at hret
        exact absurd hret hok
      · intro hother
        have hne : (metaApp m fpga appOff metaTmp).vendor ≠ vendorUuid := by
          rw [hother]
          decide
        have hname := h.name hne
        rw [appId_eq m fpga appOff metaTmp, if_pos (hswap.mpr hother)] at hname
        exact absurd (congrArg Prod.fst hname).symm hok
    · rintro ⟨hmarker, hother⟩
      have heq := appId_eq m fpga appOff metaTmp
      rw [if_neg (mt hswap.mp hother)] at heq
      refine ⟨?_, fun _ => heq⟩
      rw [heq]
      exact iff_of_false hok hmarker
  · intro m' fpga' appOff' metaTmp' hok hok' hsame
    rw [appId_name hok, appId_name hok'] at hsame
    exact nameOf_inj hsame

end Build

/-- An application whose vendor is given by its UUID. -/
def uuidApp : ByteMemory := wordsAt fun k => if k = 0 then vendorUuid else 0#32

/-- It gets the name `id:ff00000000000000`. -/
theorem uuid_marker_missed :
    ¬ ∀ (m : ByteMemory) (fpga appOff : ℕ) (metaTmp : ℕ → Word), Agrees m fpga appOff metaTmp := by
  intro hall
  have hmarker : (metaApp uuidApp 0 0 fun _ => 0#32).vendor = vendorUuid := by decide
  have hret := (hall uuidApp 0 0 fun _ => 0#32).refused.mpr hmarker
  rw [appId_eq uuidApp 0 0 fun _ => 0#32, hmarker, if_neg (by decide)] at hret
  exact absurd hret (by decide)

end Svec.Host.AppId
