import GameBoy.Machine.Basic
import GameBoy.Proofs.Cartridge.Banks

/-!
# Which images are accepted

An image can have five faults, which are looked for in a fixed order, and the first one that it has
is the reason to refuse it. An image without a fault becomes a cartridge, whether or not its
checksum and its logo are genuine. Until something is written to it, its first two banks are in
sight, whatever its controller is.

* `Header.DeclaresRom`, `Header.DeclaresRam`: the sizes that codes stand for.
* `LoadError.Applies`, `LoadError.order`: the faults of an image and their order.
* `Cartridge.load_eq_error_iff`, `Cartridge.exists_load_iff`: refusal and acceptance.
* `Cartridge.load_exact`: both for a machine, and what an accepted image becomes.
-/

namespace GameBoy

/-! ## Codes -/

namespace Header

/-- A code stands for a size of read-only memory: twice as much with each code from 32 KiB on, or
one of three odd numbers of banks. -/
def DeclaresRom (code : UInt8) (size : Nat) : Prop :=
  code ≤ 0x08 ∧ size = 0x8000 * 2 ^ code.toNat ∨
    (code, size) ∈ [(0x52, 72 * 0x4000), (0x53, 80 * 0x4000), (0x54, 96 * 0x4000)]

/-- A code stands for a size of external memory. -/
def DeclaresRam (code : UInt8) (size : Nat) : Prop :=
  (code, size) ∈ [(0x00, 0), (0x01, 0x800), (0x02, 0x2000), (0x03, 0x8000), (0x04, 0x20000),
    (0x05, 0x10000)]

theorem romSize?_eq_some_iff (code : UInt8) (size : Nat) :
    romSize? code = some size ↔ DeclaresRom code size := by
  have hshift : romBankSize <<< (code.toNat + 1) = 0x8000 * 2 ^ code.toNat := by
    rw [romBankSize, Nat.shiftLeft_eq, Nat.pow_succ]
    omega
  unfold romSize? DeclaresRom
  rw [hshift]
  split_ifs with hpower
  · rw [Option.some.injEq, eq_comm]
    refine ⟨fun hsize => .inl ⟨hpower, hsize⟩, ?_⟩
    rintro (⟨-, hsize⟩ | hodd)
    · exact hsize
    · simp only [List.mem_cons, Prod.mk.injEq, List.not_mem_nil, or_false] at hodd
      obtain ⟨rfl, -⟩ | ⟨rfl, -⟩ | ⟨rfl, -⟩ := hodd
      all_goals exact absurd hpower (by decide)
  all_goals
    rw [or_iff_right fun hleft => hpower hleft.1]
    simp_all [eq_comm, romBankSize]

theorem romSize?_eq_none_iff (code : UInt8) :
    romSize? code = none ↔ ¬ (code ≤ 0x08 ∨ 0x52 ≤ code ∧ code ≤ 0x54) :=
  forall_byte
    (P := fun code => romSize? code = none ↔ ¬ (code ≤ 0x08 ∨ 0x52 ≤ code ∧ code ≤ 0x54))
    (by decide +kernel) code

theorem ramSize?_eq_some_iff (code : UInt8) (size : Nat) :
    ramSize? code = some size ↔ DeclaresRam code size := by
  unfold ramSize? DeclaresRam
  split_ifs <;> simp_all [eq_comm]

theorem ramSize?_eq_none_iff (code : UInt8) : ramSize? code = none ↔ 0x05 < code :=
  forall_byte (P := fun code => ramSize? code = none ↔ 0x05 < code) (by decide +kernel) code

end Header

/-- Controllers are known for the codes that are described, and for no others. -/
theorem Controller.ofCode?_eq_none_iff (code : UInt8) :
    ofCode? code = none ↔ Header.describe? code = none := by
  have hsome : (ofCode? code).isSome = (Header.describe? code).isSome :=
    forall_byte (P := fun code => (ofCode? code).isSome = (Header.describe? code).isSome)
      (by decide +kernel) code
  rw [← Option.not_isSome_iff_eq_none, hsome, Option.not_isSome_iff_eq_none]

/-! ## Faults -/

namespace LoadError

/-- An image has a fault, whatever other faults it has. Where the header is not complete, the bytes
that it lacks are as on an undriven bus. -/
def Applies (image : ByteArray) : LoadError → Prop
  | .headerTooShort length => length = image.size ∧ image.size < 0x150
  | .unsupportedRomSize code =>
    code = byteAt image 0x148 ∧ ¬ (code ≤ 0x08 ∨ 0x52 ≤ code ∧ code ≤ 0x54)
  | .romTooLarge length declared =>
    length = image.size ∧ Header.DeclaresRom (byteAt image 0x148) declared ∧ declared < image.size
  | .unsupportedRamSize code => code = byteAt image 0x149 ∧ 0x05 < code
  | .unsupportedKind code => code = byteAt image 0x147 ∧ Header.describe? code = none

/-- The place of a fault in the order in which faults are looked for. -/
def order : LoadError → Nat
  | .headerTooShort _ => 0
  | .unsupportedRomSize _ => 1
  | .romTooLarge .. => 2
  | .unsupportedRamSize _ => 3
  | .unsupportedKind _ => 4

/-- An image has none of the faults before a place. -/
def ClearTo (image : ByteArray) (place : Nat) : Prop :=
  ∀ e : LoadError, e.order < place → ¬ e.Applies image

/-- An image has a fault, and none that is looked for earlier. -/
def IsFirst (image : ByteArray) (e : LoadError) : Prop :=
  e.Applies image ∧ ∀ e', Applies image e' → e.order ≤ e'.order

variable {image : ByteArray}

/-- What is found of a fault says all that its place leaves open. -/
theorem Applies.eq_of_order {e e' : LoadError} (h : e.Applies image) (h' : e'.Applies image)
    (horder : e.order = e'.order) : e = e' := by
  cases e <;> cases e' <;> cases horder
  case romTooLarge.romTooLarge length declared _ declared' =>
    obtain ⟨rfl, hdeclares, -⟩ := h
    obtain ⟨rfl, hdeclares', -⟩ := h'
    rw [← Header.romSize?_eq_some_iff] at hdeclares hdeclares'
    rw [Option.some.inj (hdeclares.symm.trans hdeclares')]
  all_goals rw [h.1, h'.1]

/-- So an image has one first fault at most. -/
theorem IsFirst.eq {e e' : LoadError} (h : e.IsFirst image) (h' : e'.IsFirst image) : e = e' :=
  h.1.eq_of_order h'.1 (Nat.le_antisymm (h.2 e' h'.1) (h'.2 e h.1))

theorem clearTo_zero : ClearTo image 0 := fun _ horder => absurd horder (Nat.not_lt_zero _)

theorem ClearTo.succ {place : Nat} (h : ClearTo image place)
    (hplace : ∀ e : LoadError, e.order = place → ¬ e.Applies image) : ClearTo image (place + 1) :=
  fun e horder => (Nat.lt_succ_iff_lt_or_eq.1 horder).elim (h e) (hplace e)

theorem ClearTo.isFirst {e : LoadError} (h : ClearTo image e.order) (happlies : e.Applies image) :
    e.IsFirst image :=
  ⟨happlies, fun e' happlies' => Nat.le_of_not_lt fun horder => h e' horder happlies'⟩

/-- There are five places. -/
theorem order_lt (e : LoadError) : e.order < 5 := by
  cases e <;> simp only [order] <;> decide

/-! One place after the other is clear where the search goes on. -/

theorem clearTo_header (hsize : ¬ image.size < Header.stop) : ClearTo image 1 :=
  clearTo_zero.succ fun e horder h => by
    cases e <;> cases horder
    exact hsize h.2

theorem ClearTo.romCode {size : Nat} (hclear : ClearTo image 1)
    (hsome : Header.romSize? (Header.romCode image) = some size) : ClearTo image 2 :=
  hclear.succ fun e horder h => by
    cases e <;> cases horder
    have hnone := (Header.romSize?_eq_none_iff _).2 h.2
    rw [h.1] at hnone
    exact absurd (hsome.symm.trans hnone) nofun

theorem ClearTo.length {size : Nat} (hclear : ClearTo image 2)
    (hsome : Header.romSize? (Header.romCode image) = some size) (hsize : ¬ size < image.size) :
    ClearTo image 3 :=
  hclear.succ fun e horder h => by
    cases e <;> cases horder
    have hdeclared := (Header.romSize?_eq_some_iff _ _).2 h.2.1
    exact hsize (Option.some.inj (hsome.symm.trans hdeclared) ▸ h.2.2)

theorem ClearTo.ramCode {size : Nat} (hclear : ClearTo image 3)
    (hsome : Header.ramSize? (Header.ramCode image) = some size) : ClearTo image 4 :=
  hclear.succ fun e horder h => by
    cases e <;> cases horder
    have hnone := (Header.ramSize?_eq_none_iff _).2 h.2
    rw [h.1] at hnone
    exact absurd (hsome.symm.trans hnone) nofun

theorem ClearTo.kindCode {controller : Controller} (hclear : ClearTo image 4)
    (hsome : Controller.ofCode? (Header.kindCode image) = some controller) : ClearTo image 5 :=
  hclear.succ fun e horder h => by
    cases e <;> cases horder
    have hnone := (Controller.ofCode?_eq_none_iff _).2 h.2
    rw [h.1] at hnone
    exact absurd (hsome.symm.trans hnone) nofun

end LoadError

/-! ## Refusal and acceptance -/

namespace Cartridge

variable {image : ByteArray}

/-- The faults are looked for one after the other, and an image without any of them is accepted. -/
theorem load_cases (image : ByteArray) :
    (∃ e, load image = .error e ∧ e.IsFirst image) ∨
      ∃ romSize ramSize controller,
        Header.romSize? (Header.romCode image) = some romSize ∧ image.size ≤ romSize ∧
        Header.ramSize? (Header.ramCode image) = some ramSize ∧
        Controller.ofCode? (Header.kindCode image) = some controller ∧
        load image = .ok
          { rom := padded image romSize, ram := clearedRam controller ramSize, controller } ∧
        ∀ e : LoadError, ¬ e.Applies image := by
  unfold load
  simp only [bind, Except.bind, pure, Except.pure, throw, throwThe, MonadExceptOf.throw]
  -- at each place either its fault is the first one, or one place more is clear
  by_cases hshort : image.size < Header.stop
  · simp only [hshort, if_true]
    exact .inl ⟨_, rfl, LoadError.clearTo_zero.isFirst ⟨rfl, hshort⟩⟩
  have hclear := LoadError.clearTo_header hshort
  simp only [hshort, if_false]
  cases hrom : Header.romSize? (Header.romCode image) with
  | none => exact .inl ⟨_, rfl, hclear.isFirst ⟨rfl, (Header.romSize?_eq_none_iff _).1 hrom⟩⟩
  | some romSize =>
  have hclear := hclear.romCode hrom
  by_cases hlarge : romSize < image.size
  · simp only [hlarge, if_true]
    exact .inl ⟨_, rfl, hclear.isFirst ⟨rfl, (Header.romSize?_eq_some_iff _ _).1 hrom, hlarge⟩⟩
  have hclear := hclear.length hrom hlarge
  simp only [hlarge, if_false]
  cases hram : Header.ramSize? (Header.ramCode image) with
  | none => exact .inl ⟨_, rfl, hclear.isFirst ⟨rfl, (Header.ramSize?_eq_none_iff _).1 hram⟩⟩
  | some ramSize =>
  have hclear := hclear.ramCode hram
  cases hkind : Controller.ofCode? (Header.kindCode image) with
  | none => exact .inl ⟨_, rfl, hclear.isFirst ⟨rfl, (Controller.ofCode?_eq_none_iff _).1 hkind⟩⟩
  | some controller =>
  have hclear := hclear.kindCode hkind
  exact .inr ⟨romSize, ramSize, controller, rfl, Nat.le_of_not_lt hlarge, rfl, rfl, rfl,
    fun e => hclear e e.order_lt⟩

/-- An image is refused for its first fault. -/
theorem load_eq_error_iff (e : LoadError) : load image = .error e ↔ e.IsFirst image := by
  obtain ⟨e', hload, hfirst⟩ | ⟨_, _, _, -, -, -, -, hload, hnone⟩ := load_cases image
  · rw [hload, Except.error.injEq]
    exact ⟨fun he => he ▸ hfirst, fun h => hfirst.eq h⟩
  · rw [hload]
    exact ⟨nofun, fun h => absurd h.1 (hnone e)⟩

/-- An image is accepted if it has no fault. -/
theorem exists_load_iff : (∃ c, load image = .ok c) ↔ ∀ e : LoadError, ¬ e.Applies image := by
  obtain ⟨e, hload, hfirst⟩ | ⟨_, _, _, -, -, -, -, hload, hnone⟩ := load_cases image
  · rw [hload]
    exact ⟨nofun, fun h => absurd hfirst.1 (h e)⟩
  · exact ⟨fun _ => hnone, fun _ => ⟨_, hload⟩⟩

/-! ## What an accepted image becomes -/

/-- Two codes stand for the controller with memory of its own. -/
theorem kind_eq_mbc2_iff {code : UInt8} {controller : Controller}
    (hcode : Controller.ofCode? code = some controller) :
    controller.kind = .mbc2 ↔ code = 0x05 ∨ code = 0x06 := by
  have hkind : (Controller.ofCode? code).map Controller.kind = some .mbc2 ↔
      code = 0x05 ∨ code = 0x06 :=
    forall_byte
      (P := fun code => (Controller.ofCode? code).map Controller.kind = some .mbc2 ↔
        code = 0x05 ∨ code = 0x06)
      (by decide +kernel) code
  rwa [hcode, Option.map_some, Option.some.injEq] at hkind

/-- External memory is cleared. The controller with memory of its own has 512 half bytes, whatever
is declared. -/
theorem toList_clearedRam (controller : Controller) (declared : Nat) :
    (clearedRam controller declared).data.toList =
      List.replicate (if controller.kind = .mbc2 then 512 else declared) 0 := by
  cases controller <;> exact Array.toList_replicate

theorem length_toList (b : ByteArray) : b.data.toList.length = b.size := Array.length_toList

theorem getElem?_toList {b : ByteArray} {i : Nat} (h : i < b.size) :
    b.data.toList[i]? = some (byteAt b i) := by
  rw [byteAt, dif_pos h, Array.getElem?_toList]
  exact Array.getElem?_eq_getElem h

theorem toList_padded (image : ByteArray) (size : Nat) :
    (padded image size).data.toList =
      image.data.toList ++ List.replicate (size - image.size) 0xff := by
  simp [padded]

end Cartridge

/-- Before anything is written, the second window continues the first one. -/
theorem History.bank_nil (k : Controller.Kind) {a : UInt16} (ha : a < 0x8000) :
    bank [] k a = a.toNat / 0x4000 := by
  have hend : a.toNat < 0x8000 := UInt16.lt_iff_toNat_lt.1 ha
  unfold bank
  split
  case isTrue hfirst =>
    have hlt : a.toNat < 0x4000 := UInt16.lt_iff_toNat_lt.1 hfirst
    rw [Nat.div_eq_of_lt hlt]
    cases k <;> rfl
  case isFalse hfirst =>
    have hle : 0x4000 ≤ a.toNat := UInt16.le_iff_toNat_le.1 (UInt16.not_lt.1 hfirst)
    rw [show a.toNat / 0x4000 = 1 by omega]
    cases k <;> rfl

namespace Cartridge

/-- Before anything is written, a program sees the first bytes of read-only memory. -/
theorem read_of_unwritten {image : ByteArray} {c : Cartridge} (hload : load image = .ok c)
    {as : List Action} (hhistory : Action.history as = []) {a : UInt16} (ha : a < 0x8000) :
    c.rom.data.toList[a.toNat]? = some ((performAll c as).read a) := by
  obtain ⟨banks, htwo, -, hrom, hcount⟩ := banks_of_load hload
  obtain ⟨size, hsize, hpadded, hle, -, hcode⟩ := load_eq_ok hload
  obtain ⟨hfollows, -, hsame⟩ := follows_performAll (Controller.follows_ofCode hcode) as
  rw [hhistory, List.append_nil] at hfollows
  have hread := read_of_follows (hsame.trans hrom) (hsame ▸ hcount) hfollows ha
  have hend : a.toNat < 0x8000 := UInt16.lt_iff_toNat_lt.1 ha
  have hbytes : 2 * Header.romBankSize ≤ c.rom.size := by
    rw [hpadded, size_padded image size hle]
    exact Header.romBankSize_le_romSize hsize
  have hlt : a.toNat < c.rom.size := Nat.lt_of_lt_of_le hend hbytes
  have hplace : a.toNat / 0x4000 * 0x4000 + a.toNat % 0x4000 = a.toNat := by omega
  rw [hread, History.bank_nil _ ha, imageByte, Nat.mod_eq_of_lt (by omega), hplace, ← hrom,
    getElem?_toList hlt]

/-! ## Loading -/

/-- An image is refused for its first fault and for nothing else, and whether a machine is asked to
look at the checksum and the logo makes no difference. An accepted image becomes read-only memory
that is as long as declared, and external memory that is cleared. Until something is written, a
program sees the first 32 KiB, whatever the controller is. -/
theorem load_exact (image : ByteArray) :
    (∀ e, load image = .error e ↔ e.IsFirst image) ∧
    ((∃ c, load image = .ok c) ↔ ∀ e : LoadError, ¬ e.Applies image) ∧
    (∀ (options : Machine.Options) (journal : Journal),
      (Machine.powerUp image options journal).map (·.board.cartridge) = load image) ∧
    ∀ c, load image = .ok c → ∃ romSize ramSize,
      Header.DeclaresRom (byteAt image 0x148) romSize ∧
      Header.DeclaresRam (byteAt image 0x149) ramSize ∧ image.size ≤ romSize ∧
      c.rom.data.toList = image.data.toList ++ List.replicate (romSize - image.size) 0xff ∧
      c.ram.data.toList =
        List.replicate (if byteAt image 0x147 ∈ [(0x05 : UInt8), 0x06] then 512 else ramSize) 0 ∧
      ∀ as : List Action, Action.history as = [] →
        ∀ a < 0x8000, c.rom.data.toList[a.toNat]? = some ((performAll c as).read a) := by
  refine ⟨load_eq_error_iff, exists_load_iff, fun options journal => ?_, fun c hload => ?_⟩
  · unfold Machine.powerUp
    cases load image <;> rfl
  obtain ⟨e, herror, -⟩ | ⟨romSize, ramSize, controller, hrom, hle, hram, hcode, hok, -⟩ :=
    load_cases image
  · exact absurd (herror.symm.trans hload) nofun
  cases hok.symm.trans hload
  refine ⟨romSize, ramSize, (Header.romSize?_eq_some_iff _ _).1 hrom,
    (Header.ramSize?_eq_some_iff _ _).1 hram, hle, toList_padded image romSize, ?_,
    fun as hhistory a ha => read_of_unwritten hload hhistory ha⟩
  rw [toList_clearedRam]
  simp only [kind_eq_mbc2_iff hcode, List.mem_cons, List.not_mem_nil, or_false]
  rfl

/-- An image of a header alone: it declares 72 banks, of which all but the beginning are undriven,
and 32 KiB of external memory, of which the controller takes no notice. -/
theorem load_exact_halves :
    ∃ c, load (headerImage 0x05 0x52 0x03) = .ok c ∧
      c.rom.data.toList =
        (headerImage 0x05 0x52 0x03).data.toList ++ List.replicate (72 * 0x4000 - 0x150) 0xff ∧
      c.ram.data.toList = List.replicate 512 0 ∧
      (performAll c [.pass 4194304]).read 0x147 = 0x05 ∧
      (performAll c [.pass 4194304]).read 0x7fff = 0xff := by
  have hbyte : ∀ i, i < Header.stop → byteAt (headerImage 0x05 0x52 0x03) i = _ :=
    fun i hi => byteAt_codeImage _ hi
  have hkind : byteAt (headerImage 0x05 0x52 0x03) 0x147 = 0x05 := hbyte _ (by decide)
  have hcode : byteAt (headerImage 0x05 0x52 0x03) 0x148 = 0x52 := hbyte _ (by decide)
  have hsize : (headerImage 0x05 0x52 0x03).size = Header.stop := Array.size_ofFn
  have hlength := (length_toList (headerImage 0x05 0x52 0x03)).trans hsize
  have hrom : Header.romSize? 0x52 = some (Header.romBankSize * 72) := rfl
  have hram : Header.ramSize? 0x03 = some (32 * 1024) := rfl
  obtain ⟨c, hload⟩ : ∃ c, load (headerImage 0x05 0x52 0x03) = .ok c :=
    ⟨_, load_headerImage hrom hram rfl⟩
  obtain ⟨romSize, _, hdeclares, -, -, hbytes, hcleared, hread⟩ :=
    (load_exact (headerImage 0x05 0x52 0x03)).2.2.2 c hload
  have hromSize : romSize = 72 * 0x4000 := by
    rw [hcode, ← Header.romSize?_eq_some_iff, hrom] at hdeclares
    exact (Option.some.inj hdeclares).symm
  have hunwritten : ∀ a < 0x8000, c.rom.data.toList[a.toNat]? =
      some ((performAll c [.pass 4194304]).read a) := hread [.pass 4194304] rfl
  rw [hromSize, hsize] at hbytes
  rw [hbytes] at hunwritten
  refine ⟨c, hload, hbytes, hcleared.trans (by rw [hkind]; rfl), ?_, ?_⟩
  · have hshown := hunwritten 0x147 (by decide)
    rw [List.getElem?_append_left (by rw [hlength]; decide),
      getElem?_toList (by rw [hsize]; decide)] at hshown
    exact (Option.some.inj hshown).symm.trans hkind
  · have hshown := hunwritten 0x7fff (by decide)
    rw [List.getElem?_append_right (by rw [hlength]; decide), List.getElem?_replicate,
      if_pos (by rw [hlength]; decide)] at hshown
    exact (Option.some.inj hshown).symm

end Cartridge

end GameBoy
