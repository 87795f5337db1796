import GameBoy.Proofs.Board.Frame
import GameBoy.Proofs.Checked.Devices
import GameBoy.Proofs.Checked.Video

/-!
# The board never stops

The board hands an address on to the device whose range it is in, and the device has to know it.

* `Board.Route`, `Board.route`: the ranges.
* `Board.location?_route`: the device that an address is handed on to has something there.
* `Board.checkedRead_eq`, `Board.checkedWrite_eq`: reads and writes, the copying of a page included.
-/

namespace GameBoy

open Checked

namespace Board

/-! ## Ranges of addresses -/

/-- The devices, and the registers that the board keeps itself. -/
inductive Route
  | cartridge
  | video
  | workRam
  | buttons
  | latch
  | timer
  | requests
  | spriteCopy
  | speed
  | transfer
  | highRam
  | enabled
  | nothing
deriving DecidableEq

/-- Where an address is handed on to. Some ranges are only there in the colour console. -/
def route (model : Model) (a : Nat) : Route :=
  if a ≤ 0x7fff ∨ 0xa000 ≤ a ∧ a ≤ 0xbfff then .cartridge
  else if 0x8000 ≤ a ∧ a ≤ 0x9fff then .video
  else if 0xc000 ≤ a ∧ a ≤ 0xfdff then .workRam
  else if 0xfe00 ≤ a ∧ a ≤ 0xfe9f then .video
  else if a = 0xff00 then .buttons
  else if 0xff01 ≤ a ∧ a ≤ 0xff02 then .latch
  else if 0xff04 ≤ a ∧ a ≤ 0xff07 then .timer
  else if a = 0xff0f then .requests
  else if 0xff10 ≤ a ∧ a ≤ 0xff3f then .latch
  else if a = 0xff46 then .spriteCopy
  else if 0xff40 ≤ a ∧ a ≤ 0xff45 ∨ 0xff47 ≤ a ∧ a ≤ 0xff4b then .video
  else if a = 0xff4d ∧ model.isColor then .speed
  else if (a = 0xff4f ∨ 0xff68 ≤ a ∧ a ≤ 0xff6b) ∧ model.isColor then .video
  else if 0xff51 ≤ a ∧ a ≤ 0xff55 ∧ model.isColor then .transfer
  else if a = 0xff70 ∧ model.isColor then .workRam
  else if 0xff80 ≤ a ∧ a ≤ 0xfffe then .highRam
  else if a = 0xffff then .enabled
  else .nothing

/-- What a device has at an address, if it knows it. -/
def Route.location? (a : UInt16) : Route → Option Location
  | .cartridge => some (.cartridge a)
  | .video => (Video.Location.ofAddress? a).map .video
  | .workRam =>
    if a = 0xff70 then some (.workRam .bank)
    else if 0xc000 ≤ a.toNat ∧ a.toNat < 0xfe00 then some (.workRam (.cell (offset8K a)))
    else none
  | .buttons => if a = 0xff00 then some .buttons else none
  | .latch =>
    if h : 0xff00 ≤ a.toNat ∧ a.toNat - 0xff00 < 0x40 then some (.latch ⟨a.toNat - 0xff00, h.2⟩)
    else none
  | .timer => (Timer.Register.ofAddress? a).map .timer
  | .requests => some .requests
  | .spriteCopy => some .spriteCopy
  | .speed => if a = 0xff4d then some .speed else none
  | .transfer => (Transfer.Register.ofAddress? a).map .transfer
  | .highRam =>
    if h : 0xff80 ≤ a.toNat ∧ a.toNat - 0xff80 < 0x7f then some (.highRam ⟨a.toNat - 0xff80, h.2⟩)
    else none
  | .enabled => some .enabled
  | .nothing => some .nothing

/-- In the last page each address is looked at. -/
theorem location?_route_page (model : Model) : ∀ k : Nat, k < 256 →
    (route model (UInt16.ofNat (0xff00 + k)).toNat).location? (UInt16.ofNat (0xff00 + k)) =
      some (Location.find model (UInt16.ofNat (0xff00 + k))) := by
  cases model with
  | dmg => decide +kernel
  | cgb => decide +kernel

section Below

variable {model : Model} {a : UInt16}

theorem location?_video {l : Video.Location} (h : Video.Location.memory? a = some l) :
    Route.video.location? a = some (.video l) := by
  rw [Route.location?, Video.Location.ofAddress?, h]
  rfl

/-- Outside its memories the display has nothing below the last page. -/
theorem ofAddress_of_lt (hmemory : Video.Location.memory? a = none) (h : a.toNat < 0xff00) :
    Location.ofAddress a =
      if a.toNat < 0xc000 then .cartridge a
      else if a.toNat < 0xfe00 then .workRam (.cell (offset8K a))
      else .nothing := by
  have hlow : a < 0xc000 ↔ a.toNat < 0xc000 := lt_iff_toNat_lt rfl
  have hmid : a < 0xfe00 ↔ a.toNat < 0xfe00 := lt_iff_toNat_lt rfl
  have hhigh : a < 0xff00 ↔ a.toNat < 0xff00 := lt_iff_toNat_lt rfl
  rw [Location.ofAddress, hmemory]
  simp only [hlow, hmid, hhigh, h, if_true]

theorem route_of_nothing {n : Nat} (h : 0xfea0 ≤ n) (hlt : n < 0xff00) :
    route model n = .nothing := by
  unfold route
  repeat rw [if_neg (by omega)]

/-- Below the last page video memory and the memory of sprites lie between cartridge and work
RAM. -/
theorem location?_route_of_lt (h : a.toNat < 0xff00) :
    (route model a.toNat).location? a = some (Location.find model a) := by
  by_cases hvram : 0x8000 ≤ a.toNat ∧ a.toNat < 0xa000
  · have hmemory : Video.Location.memory? a = some (.vram ⟨a.toNat - 0x8000, by omega⟩) :=
      dif_pos hvram
    rw [Location.find_of_memory? hmemory rfl, route, if_neg (by omega), if_pos (by omega),
      location?_video hmemory]
  by_cases hoam : 0xfe00 ≤ a.toNat ∧ a.toNat < 0xfea0
  · have hmemory : Video.Location.memory? a = some (.oam ⟨a.toNat - 0xfe00, by omega⟩) := by
      rw [Video.Location.memory?, dif_neg hvram, dif_pos hoam]
    rw [Location.find_of_memory? hmemory rfl, route, if_neg (by omega), if_neg (by omega),
      if_neg (by omega), if_pos (by omega), location?_video hmemory]
  have hmemory : Video.Location.memory? a = none := by
    rw [Video.Location.memory?, dif_neg hvram, dif_neg hoam]
  have hof := ofAddress_of_lt hmemory h
  rcases Nat.lt_or_ge a.toNat 0xc000 with hcartridge | hcartridge
  · rw [if_pos hcartridge] at hof
    rw [Location.find_of_ofAddress hof rfl, route, if_pos (by omega)]
    rfl
  rw [if_neg (Nat.not_lt.2 hcartridge)] at hof
  rcases Nat.lt_or_ge a.toNat 0xfe00 with hwork | hwork
  · rw [if_pos hwork] at hof
    rw [Location.find_of_ofAddress hof rfl, route, if_neg (by omega), if_neg (by omega),
      if_pos (by omega), Route.location?, if_neg (WorkRam.ne_bankAddress ⟨hcartridge, hwork⟩),
      if_pos ⟨hcartridge, hwork⟩]
  · rw [if_neg (Nat.not_lt.2 hwork)] at hof
    rw [Location.find_of_ofAddress hof rfl, route_of_nothing (by omega) h]
    rfl

end Below

/-- The device that an address is handed on to has something there. -/
theorem location?_route (model : Model) (a : UInt16) :
    (route model a.toNat).location? a = some (Location.find model a) := by
  rcases Nat.lt_or_ge a.toNat 0xff00 with h | h
  · exact location?_route_of_lt h
  · have hlt := a.toNat_lt
    have hsplit : 0xff00 + (a.toNat - 0xff00) = a.toNat := by omega
    have hpage := location?_route_page model (a.toNat - 0xff00) (by omega)
    rwa [hsplit, UInt16.ofNat_toNat] at hpage

/-- What a device that an address is handed on to knows about the address. -/
inductive Reaches (a : UInt16) : Route → Location → Prop
  | cartridge : Reaches a .cartridge (.cartridge a)
  | video {l : Video.Location} (h : Video.Location.ofAddress? a = some l) :
      Reaches a .video (.video l)
  | bank (h : a = 0xff70) : Reaches a .workRam (.workRam .bank)
  | cell (h : 0xc000 ≤ a.toNat ∧ a.toNat < 0xfe00) :
      Reaches a .workRam (.workRam (.cell (offset8K a)))
  | buttons (h : a = 0xff00) : Reaches a .buttons .buttons
  | latch (i : Fin 0x40) (h : 0xff00 ≤ a.toNat) (hi : a.toNat - 0xff00 = i.val) :
      Reaches a .latch (.latch i)
  | timer {r : Timer.Register} (h : Timer.Register.ofAddress? a = some r) :
      Reaches a .timer (.timer r)
  | requests : Reaches a .requests .requests
  | spriteCopy : Reaches a .spriteCopy .spriteCopy
  | speed (h : a = 0xff4d) : Reaches a .speed .speed
  | transfer {r : Transfer.Register} (h : Transfer.Register.ofAddress? a = some r) :
      Reaches a .transfer (.transfer r)
  | highRam (i : Fin 0x7f) (h : 0xff80 ≤ a.toNat) (hi : a.toNat - 0xff80 = i.val) :
      Reaches a .highRam (.highRam i)
  | enabled : Reaches a .enabled .enabled
  | nothing : Reaches a .nothing .nothing

theorem reaches_of_location? {a : UInt16} {r : Route} {l : Location}
    (h : r.location? a = some l) : Reaches a r l := by
  cases r with
  | cartridge | requests | spriteCopy | enabled | nothing =>
    cases h
    constructor
  | video | timer | transfer =>
    rw [Route.location?, Option.map_eq_some_iff] at h
    obtain ⟨r, hr, rfl⟩ := h
    constructor
    exact hr
  | workRam =>
    rw [Route.location?] at h
    split at h
    · cases h
      exact .bank ‹_›
    · split at h
      · cases h
        exact .cell ‹_›
      · cases h
  | buttons | speed =>
    rw [Route.location?] at h
    split at h
    · cases h
      constructor
      assumption
    · cases h
  | latch | highRam =>
    rw [Route.location?] at h
    split at h
    · rename_i ha
      cases h
      constructor
      · exact ha.1
      · rfl
    · cases h

theorem reaches_route (model : Model) (a : UInt16) :
    Reaches a (route model a.toNat) (Location.find model a) :=
  reaches_of_location? (location?_route model a)

/-! ## Reads -/

/-- What a program reads at an address. -/
def checkedRead (b : Board) (a : UInt16) : Option UInt8 := do
  match route b.model a.toNat with
  | .cartridge => b.cartridge.checkedRead a
  | .video => b.video.checkedRead a
  | .workRam => b.workRam.checkedRead a
  | .buttons => b.buttons.checkedRead a
  | .latch =>
    let i ← sub a.toNat 0xff00
    b.latches.fetch i
  | .timer => b.timer.checkedRead a
  | .requests => return b.requests.read
  | .spriteCopy => return b.spritePage
  | .speed => b.speed.checkedRead a
  | .transfer => b.transfer.checkedRead a
  | .highRam =>
    let i ← sub a.toNat 0xff80
    b.highRam.fetch i
  | .enabled => return b.enabled
  | .nothing => return 0xff

/-- Every address can be read. -/
theorem checkedRead_eq {b : Board} (h : b.Valid) (a : UInt16) :
    b.checkedRead a = some (b.read a) := by
  have hreaches := reaches_route b.model a
  unfold checkedRead read
  generalize route b.model a.toNat = r at hreaches
  generalize Location.find b.model a = l at hreaches
  cases hreaches with
  | cartridge => exact Cartridge.checkedRead_eq h.cartridge a
  | video hl => exact b.video.checkedRead_eq hl
  | bank ha =>
    show b.workRam.checkedRead a = _
    rw [WorkRam.checkedRead, if_pos ha]
    rfl
  | cell ha => exact b.workRam.checkedRead_eq ha
  | buttons ha =>
    show b.buttons.checkedRead a = _
    rw [Buttons.checkedRead, ensure_of ha]
    rfl
  | latch i ha hi =>
    simp only [sub_of_le ha, hi]
    exact b.latches.fetch_of_lt i.isLt
  | timer hr => exact Timer.checkedRead_eq hr b.timer
  | speed ha =>
    show b.speed.checkedRead a = _
    rw [Speed.checkedRead, ensure_of ha]
    rfl
  | transfer hr => exact Transfer.checkedRead_eq hr b.transfer
  | highRam i ha hi =>
    simp only [sub_of_le ha, hi]
    exact b.highRam.fetch_of_lt i.isLt
  | requests | spriteCopy | enabled | nothing => rfl

/-! ## Writes -/

/-- Copies byte `i` of the noted page to the memory of sprites. -/
def checkedCopySpriteByte (b : Board) (i : Fin 0xa0) : Option Board := do
  let source ← addWord (b.spritePage.toUInt16 <<< 8) (UInt16.ofNat i)
  let v ← b.checkedRead source
  let target ← addWord 0xfe00 (UInt16.ofNat i)
  let (video, raised) ← b.video.checkedWrite target v
  return { b with video, requests := b.requests ∪ raised }

def checkedCopySprites (b : Board) (page : UInt8) : Option Board :=
  Fin.foldlM 0xa0 checkedCopySpriteByte { b with spritePage := page }

/-- A program's write to the display, of which the display may give notice. -/
def checkedWriteVideo (b : Board) (a : UInt16) (v : UInt8) : Option Board := do
  let n? := (Video.Location.ofAddress? a).bind fun l => b.video.report? l v
  let (video, raised) ← b.video.checkedWrite a v
  return { b.report n? with video, requests := b.requests ∪ raised }

/-- A program's write to the transfer unit, of which the unit may give notice. -/
def checkedWriteTransfer (b : Board) (a : UInt16) (v : UInt8) : Option Board := do
  let n? := (Transfer.Register.ofAddress? a).bind fun r => b.transfer.report? r v
  let transfer ← b.transfer.checkedWrite a v
  return { b.report n? with transfer }

/-- A program's write to an address. -/
def checkedWrite (b : Board) (a : UInt16) (v : UInt8) : Option Board := do
  match route b.model a.toNat with
  | .cartridge =>
    let cartridge ← b.cartridge.checkedWrite a v
    return { b with cartridge }
  | .video => b.checkedWriteVideo a v
  | .workRam =>
    let workRam ← b.workRam.checkedWrite a v
    return { b with workRam }
  | .buttons =>
    let buttons ← b.buttons.checkedWrite a v
    return { b with buttons }
  | .latch =>
    let i ← sub a.toNat 0xff00
    let latches ← b.latches.store i v
    return { b with latches }
  | .timer =>
    let timer ← b.timer.checkedWrite a v
    return { b with timer }
  | .requests => return { b with requests := .write v }
  | .spriteCopy => b.checkedCopySprites v
  | .speed =>
    let speed ← b.speed.checkedWrite a v
    return { b with speed }
  | .transfer => b.checkedWriteTransfer a v
  | .highRam =>
    let i ← sub a.toNat 0xff80
    let highRam ← b.highRam.store i v
    return { b with highRam }
  | .enabled => return { b with enabled := v }
  | .nothing => return b

/-- The memory of sprites lies at `0xfe00`. -/
theorem ofAddress?_oam : ∀ i : Fin 0xa0,
    Video.Location.ofAddress? (0xfe00 + UInt16.ofNat i) = some (.oam i) := by
  decide +kernel

theorem toNat_page_shiftLeft (page : UInt8) : (page.toUInt16 <<< 8).toNat = page.toNat * 0x100 :=
  forall_byte (P := fun page => (page.toUInt16 <<< 8).toNat = page.toNat * 0x100)
    (by decide +kernel) page

/-- A write to the memories of the display requests nothing. -/
theorem withVideo_of_empty (b : Board) (video : Video) :
    { b with video, requests := b.requests ∪ ∅ } = { b with video } := by
  rw [Requests.union_empty]

/-- A page does not run over the end of memory. -/
theorem checkedCopySpriteByte_eq {b : Board} (h : b.Valid) (i : Fin 0xa0) :
    b.checkedCopySpriteByte i = some (b.copySpriteByte i) := by
  have hpage := b.spritePage.toNat_lt
  have hi : (UInt16.ofNat i).toNat = i.val := by
    rw [UInt16.toNat_ofNat']
    exact Nat.mod_eq_of_lt (by omega)
  have hsource : (b.spritePage.toUInt16 <<< 8).toNat + (UInt16.ofNat i).toNat < 2 ^ 16 := by
    rw [toNat_page_shiftLeft, hi]
    omega
  have htarget : (0xfe00 : UInt16).toNat + (UInt16.ofNat i).toNat < 2 ^ 16 := by
    rw [hi]
    show 0xfe00 + i.val < 2 ^ 16
    omega
  unfold checkedCopySpriteByte copySpriteByte
  simp only [addWord_of_lt hsource, addWord_of_lt htarget, checkedRead_eq h, Option.bind_eq_bind,
    Option.bind_some, b.video.checkedWrite_eq (ofAddress?_oam i)]
  exact congrArg some (b.withVideo_of_empty _)

theorem checkedCopySprites_eq {b : Board} (h : b.Valid) (page : UInt8) :
    b.checkedCopySprites page = some (b.copySprites page) := by
  have hnoted : Valid { b with spritePage := page } :=
    ⟨h.video, h.timer, h.transfer, h.cartridge⟩
  have hcopied := foldlM_eq (P := Valid) (f := copySpriteByte)
    (fun _ i hb => checkedCopySpriteByte_eq hb i) (fun _ i hb => hb.copySpriteByte i) hnoted
  exact hcopied.1

/-- Every address can be written. -/
theorem checkedWrite_eq {b : Board} (h : b.Valid) (a : UInt16) (v : UInt8) :
    b.checkedWrite a v = some (b.write a v) := by
  have hreaches := reaches_route b.model a
  unfold checkedWrite write
  generalize route b.model a.toNat = r at hreaches
  generalize Location.find b.model a = l at hreaches
  cases hreaches with
  | cartridge =>
    simp only [Cartridge.checkedWrite_eq h.cartridge]
    rfl
  | video hl =>
    simp only [checkedWriteVideo, b.video.checkedWrite_eq hl, hl]
    rfl
  | bank ha =>
    simp only [WorkRam.checkedWrite, if_pos ha]
    rfl
  | cell ha =>
    simp only [b.workRam.checkedWrite_eq ha]
    rfl
  | buttons ha =>
    simp only [Buttons.checkedWrite, ensure_of ha]
    rfl
  | latch i ha hi =>
    simp only [sub_of_le ha, hi, Option.bind_eq_bind, Option.bind_some,
      b.latches.store_of_lt i.isLt]
    rfl
  | timer hr =>
    simp only [Timer.checkedWrite_eq hr]
    rfl
  | spriteCopy => exact checkedCopySprites_eq h v
  | speed ha =>
    simp only [Speed.checkedWrite, ensure_of ha]
    rfl
  | transfer hr =>
    simp only [checkedWriteTransfer, Transfer.checkedWrite_eq hr, hr]
    rfl
  | highRam i ha hi =>
    simp only [sub_of_le ha, hi, Option.bind_eq_bind, Option.bind_some,
      b.highRam.store_of_lt i.isLt]
    rfl
  | requests | enabled | nothing => rfl

end Board

end GameBoy
