import NetCamera.Store
import NetCamera.Protocol.Handlers

/-!
# NetCamera.Boot

What a boot makes of the record on flash.

Three places read it: `lwip_comm_default_ip_set` for the address of the network
interface, the start of `tcp_server_thread` for the LED, before it replaces a
blank record by `DefaultList`, and `MT9D111_Jpeg_Config` for the sensor, after
that.  `boot_agrees_iff` compares the first two with the record in effect.
-/

namespace NetCamera

/-! ## The network interface -/

/-- `__lwip_dev`. -/
structure LwipDev where
  mac : List UInt8
  remoteip : List UInt8
  ip : List UInt8
  netmask : List UInt8
  gateway : List UInt8
  dhcpstatus : UInt8
  deriving DecidableEq, Repr

/-- The bytes of the array `ip` of a record. -/
def SavePara.ip (p : SavePara) : List UInt8 := [p.ip0, p.ip1, p.ip2, p.ip3]

/-- `lwip_comm_default_ip_set`, on a chip with the identifier `sn0`: the parameters it
loads, and the settings of the interface. -/
def lwip_comm_default_ip_set (sn0 : Nat) (f : Flash) : ParaRam × LwipDev :=
  let m := loadList f
  (m, {
    mac := [2, 0, 0, UInt8.ofNat (sn0 / 65536), UInt8.ofNat (sn0 / 256), UInt8.ofNat sn0]
    remoteip := [192, 168, 0, 101]
    ip := m.SaveParaList.ip
    netmask := [255, 255, 255, 0]
    gateway := [m.SaveParaList.ip0, m.SaveParaList.ip1, m.SaveParaList.ip2, 1]
    dhcpstatus := 0 })

/-! ## The LED -/

/-- The compare value the start of `tcp_server_thread` computes for a brightness. -/
def startLight (bright : UInt8) : UInt32 :=
  let ledLight := bright.toNat * 5
  let ledLight := if ledLight = 500 then 499 else ledLight
  UInt32.ofNat (if ledLight < 6 then 0 else ledLight)

/-- `TIM_SetTIM3Compare4(ledLight)` at the start of `tcp_server_thread`. -/
def startLed (f : Flash) : RegWrite := .TIM_SetTIM3Compare4 (startLight (flashRecord f).bright)

/-- Every byte is one of 256. -/
theorem forall_byte {P : UInt8 → Prop} (h : ∀ b : Fin 256, P (UInt8.ofNat b)) (b : UInt8) :
    P b := by
  have hb := h ⟨b.toNat, b.toNat_lt⟩
  simpa using hb

/-- The set command computes the same value. -/
theorem startLight_eq (b : UInt8) : startLight b = ledLight b.toNat :=
  forall_byte (P := fun b => startLight b = ledLight b.toNat) (by decide +kernel) b

theorem startLight_default {b : UInt8} :
    startLight b = startLight DefaultList.bright ↔ b = DefaultList.bright :=
  forall_byte (P := fun b => startLight b = startLight DefaultList.bright ↔ b = DefaultList.bright)
    (by decide +kernel) b

/-! ## One record -/

/-- **One record for a boot**: the address of the interface and the duty of the LED are
those of the record in effect exactly when the record on flash is not blank, or has
the default address and brightness. -/
theorem boot_agrees_iff (sn0 : Nat) (f : Flash) :
    (lwip_comm_default_ip_set sn0 f).2.ip = (effective f).ip ∧
      startLed f = .TIM_SetTIM3Compare4 (startLight (effective f).bright) ↔
    isFirstUse (flashRecord f) = false ∨ ((flashRecord f).ip = DefaultList.ip ∧
      (flashRecord f).bright = DefaultList.bright) := by
  rw [show (lwip_comm_default_ip_set sn0 f).2.ip = (flashRecord f).ip from rfl, startLed,
    RegWrite.TIM_SetTIM3Compare4.injEq, effective_eq, bootRule]
  cases hfirst : isFirstUse (flashRecord f) with
  | false => simp
  | true => simp [startLight_default]

/-- At the first power-up the interface gets the address 255.255.255.255. -/
theorem boot_disagrees_blank : ¬ ∀ (sn0 : Nat) (f : Flash),
    (lwip_comm_default_ip_set sn0 f).2.ip = (effective f).ip ∧
      startLed f = .TIM_SetTIM3Compare4 (startLight (effective f).bright) := by
  intro h
  have hblank := (h 0 fun _ => NorFlash.blank).1
  revert hblank
  decide +kernel

/-! ## The sensor -/

/-- The first table of `MT9D111_Jpeg_Config`: page, register and value. -/
def mt9d111_init_cmds_list : List (Nat × Nat × Nat) :=
  [(100, 0x00, 0x01F4), (0, 0x33, 0x0343), (1, 0xC6, 0xA115), (1, 0xC8, 0x0020),
   (0, 0x38, 0x0866), (2, 0x80, 0x0168), (2, 0x81, 0x6432), (2, 0x82, 0x3296), (2, 0x83, 0x9664),
   (2, 0x84, 0x5028), (2, 0x85, 0x2878), (2, 0x86, 0x7850), (2, 0x87, 0x0000), (2, 0x88, 0x0152),
   (2, 0x89, 0x015C), (2, 0x8A, 0x00F4), (2, 0x8B, 0x0108), (2, 0x8C, 0x00FA), (2, 0x8D, 0x00CF),
   (2, 0x8E, 0x09AD), (2, 0x8F, 0x091E), (2, 0x90, 0x0B3F), (2, 0x91, 0x0C85), (2, 0x92, 0x0CFF),
   (2, 0x93, 0x0D86), (2, 0x94, 0x163A), (2, 0x95, 0x0E47), (2, 0x96, 0x103C), (2, 0x97, 0x1D35),
   (2, 0x98, 0x173E), (2, 0x99, 0x1119), (2, 0x9A, 0x1663), (2, 0x9B, 0x1569), (2, 0x9C, 0x104C),
   (2, 0x9D, 0x1015), (2, 0x9E, 0x1010), (2, 0x9F, 0x0B0A), (2, 0xA0, 0x0D53), (2, 0xA1, 0x0D51),
   (2, 0xA2, 0x0A44), (2, 0xA3, 0x1545), (2, 0xA4, 0x1643), (2, 0xA5, 0x1231), (2, 0xA6, 0x0047),
   (2, 0xA7, 0x035C), (2, 0xA8, 0xFE30), (2, 0xA9, 0x4625), (2, 0xAA, 0x47F3), (2, 0xAB, 0x5859),
   (2, 0xAC, 0x0000), (2, 0xAD, 0x0000), (2, 0xAE, 0x0000), (1, 0x08, 0x01FC), (1, 0xC6, 0x2003),
   (1, 0xC8, 0x0748), (1, 0xC6, 0xA002), (1, 0xC8, 0x0001), (111, 0xC8, 0x0000),
   (1, 0xC6, 0xA361), (1, 0xC8, 0x00E2), (1, 0x1F, 0x0018), (1, 0x51, 0x7F40), (0, 0x33, 0x0343),
   (0, 0x38, 0x0868), (1, 0xC6, 0xA10F), (1, 0xC8, 0x0042), (1, 0x1F, 0x0020), (1, 0xC6, 0xAB04),
   (1, 0xC8, 0x0008), (1, 0xC6, 0xA103), (1, 0xC8, 0x0005), (1, 0xC6, 0xA104),
   (111, 0xC8, 0x0003), (1, 0x08, 0x01FC), (1, 0x08, 0x01EC), (1, 0x08, 0x01FC),
   (1, 0x36, 0x0F08), (1, 0xC6, 0xA103), (1, 0xC8, 0x0005)]

/-- The second table, for `VGA_FRAME`. -/
def mt9d111_capture_jpeg : List (Nat × Nat × Nat) :=
  [(0, 0x65, 0xA000), (0, 0x65, 0xE000), (100, 0x00, 0x01F4), (0, 0x66, 0x1E03),
   (0, 0x67, 0x0501), (0, 0x65, 0xA000), (0, 0x65, 0x2000), (0, 0x20, 0x0000),
   (100, 0x00, 0x01F4), (100, 0x00, 0x01F4), (100, 0x00, 0x01F4), (1, 0x43, 0x0001),
   (1, 0xC6, 0xA120), (1, 0xC8, 0x0002), (1, 0xC6, 0x270B), (1, 0xC8, 0x0000), (1, 0xC6, 0x2702),
   (1, 0xC8, 0x001E), (1, 0xC6, 0xA907), (1, 0xC8, 0x0035), (1, 0xC6, 0xA906), (1, 0xC8, 0x0000),
   (1, 0xC6, 0xA90A), (1, 0xC8, 0x0089), (1, 0xC6, 0x2908), (1, 0xC8, 0x0020),
   (100, 0x00, 0x01F4), (1, 0xC6, 0x2707), (1, 0xC8, 640), (1, 0xC6, 0x2709), (1, 0xC8, 480),
   (1, 0xC6, 0x2735), (1, 0xC8, 0x0000), (1, 0xC6, 0x2737), (1, 0xC8, 1600), (1, 0xC6, 0x2739),
   (1, 0xC8, 0x0000), (1, 0xC6, 0x273B), (1, 0xC8, 1200), (1, 0xC6, 0xA103), (1, 0xC8, 0x0002),
   (100, 0x00, 0x01F4)]

/-- A row of a table with the value `data`: a page above 2 stands for a delay. -/
def rowWrite (row : Nat × Nat × Nat) (data : UInt16) : Option RegWrite :=
  if row.1 > 2 then none
  else some (.Page_16bit_WR_Reg (UInt8.ofNat row.1) (UInt8.ofNat row.2.1) data)

/-- The value of row `i` of the second table: rows 28 and 30 are width and height. -/
def captureData (p : SavePara) (i : Nat) (row : Nat × Nat × Nat) : UInt16 :=
  if i = 28 then p.size0 else if i = 30 then p.size1 else UInt16.ofNat row.2.2

/-- The register write of `MT9D111_Init`. -/
def MT9D111_Init : List RegWrite := [.Page_16bit_WR_Reg 0 0x04 0x0607]

/-- The tables of `MT9D111_Jpeg_Config`. -/
def configTables (p : SavePara) : List RegWrite :=
  mt9d111_init_cmds_list.filterMap (fun row => rowWrite row (UInt16.ofNat row.2.2)) ++
  mt9d111_capture_jpeg.zipIdx.filterMap fun r => rowWrite r.1 (captureData p r.2 r.1)

/-- `MT9D111_Jpeg_Config`, with the record it reads. -/
def MT9D111_Jpeg_Config (p : SavePara) : List RegWrite :=
  configTables p ++
  [.Page_16bit_WR_Reg 0x00 0x09 (UInt16.ofNat (p.exp.toNat * 13)),
   .Page_16bit_WR_Reg 0x01 0xC6 0xA743, .Page_16bit_WR_Reg 0x01 0xC8 0x0003,
   .Page_16bit_WR_Reg 0x01 0xC6 0xA744, .Page_16bit_WR_Reg 0x01 0xC8 0x0003]

/-- The hardware writes of a boot in order: the LED, then the sensor, from the record
that stands on flash by then. -/
def bootWrites (f : Flash) : List RegWrite :=
  startLed f :: (MT9D111_Init ++ MT9D111_Jpeg_Config (flashRecord (bootList f).2))

end NetCamera
