import GameBoy.Proofs.Actions
import GameBoy.Proofs.Devices

/-!
# What was written to a cartridge

A bank controller remembers nothing of a program's commands but the last byte that was written to
each of its windows of addresses, and the time that passes changes none of its banks. So the writes
so far tell what a cartridge shows.

* `History`: the writes so far, and `History.last`: the last byte written to some of the addresses.
* `History.lowBank`, `History.highBank`, `History.ramBank?`, `History.isOpen`: the banks that the
  last writes select, for each kind of controller, and whether they open external memory.
* `Controller.Follows`: the registers of a controller hold what the writes so far tell.
* `Follows.command`, `Follows.advance`: commands and time keep it so.
* `Cartridge.Action`, `Cartridge.follows_performAll`: so it is in every course of writes and time.
-/

namespace GameBoy

/-! ## Histories -/

/-- Writes of bytes to addresses, the latest one first. -/
abbrev History := List (UInt16 × UInt8)

namespace History

/-- The last byte that was written to an address of a window, `start` if there was none. -/
def last (window : UInt16 → Bool) (start : UInt8) : History → UInt8
  | [] => start
  | w :: h => if window w.1 then w.2 else last window start h

/-- Whether an address is one of those from `first` to `final`. -/
@[grind =] def within (first final a : UInt16) : Bool := first ≤ a && a ≤ final

/-- Whether an address lies below `0x4000` and has the given bit 8. -/
@[grind =] def withBit (bit : Bool) (a : UInt16) : Bool := a ≤ 0x3fff && (a &&& 0x0100 != 0) == bit

@[grind =] theorem last_cons (window : UInt16 → Bool) (start : UInt8) (w : UInt16 × UInt8)
    (h : History) : last window start (w :: h) = if window w.1 then w.2 else last window start h :=
  rfl

end History

/-! ## What the last writes tell -/

/-- The kinds of controllers. -/
inductive Controller.Kind
  | fixed
  | mbc1
  | mbc2
  | mbc3
  | mbc5
deriving DecidableEq

/-- The kind of a controller. -/
def Controller.kind : Controller → Controller.Kind
  | .fixed => .fixed
  | .mbc1 _ => .mbc1
  | .mbc2 _ => .mbc2
  | .mbc3 _ => .mbc3
  | .mbc5 _ => .mbc5

namespace History

variable (h : History)

/-- What the last write to the window at `0x4000` selects, none at power-up. -/
@[grind =] def selection (mask : UInt8) : Nat := (last (within 0x4000 0x5fff) 0x00 h &&& mask).toNat

/-- Whether the last write to the window at `0x6000` makes the selection count everywhere. -/
@[grind =] def isAdvanced : Bool := last (within 0x6000 0x7fff) 0x00 h &&& 0x01 != 0x00

/-- The part of the bank that is selected at `0x2000`. Where zero stands for one, the larger of the
two counts. -/
@[grind =] def lowPart : Controller.Kind → Nat
  | .fixed => 1
  | .mbc1 => max 1 (last (within 0x2000 0x3fff) 0x01 h &&& 0x1f).toNat
  | .mbc2 => max 1 (last (withBit true) 0x01 h &&& 0x0f).toNat
  | .mbc3 => max 1 (last (within 0x2000 0x3fff) 0x01 h &&& 0x7f).toNat
  | .mbc5 => (last (within 0x2000 0x2fff) 0x01 h).toNat

/-- The part of the bank that is selected elsewhere. -/
@[grind =] def highPart : Controller.Kind → Nat
  | .mbc1 => h.selection 0x03
  | .mbc5 => (last (within 0x3000 0x3fff) 0x00 h &&& 0x01).toNat
  | _ => 0

/-- The bank in the window at `0x0000`. -/
def lowBank : Controller.Kind → Nat
  | .mbc1 => if h.isAdvanced then 32 * h.highPart .mbc1 else 0
  | _ => 0

/-- The bank in the window at `0x4000`. -/
def highBank : Controller.Kind → Nat
  | .mbc1 => 32 * h.highPart .mbc1 + h.lowPart .mbc1
  | .mbc5 => 256 * h.highPart .mbc5 + h.lowPart .mbc5
  | k => h.lowPart k

/-- Whether external memory is open: if the low half of the last byte that was written to the
window for it is ten, and always without a controller. -/
@[grind =] def isOpen : Controller.Kind → Bool
  | .fixed => true
  | .mbc2 => last (withBit false) 0x00 h &&& 0x0f == 0x0a
  | _ => last (within 0x0000 0x1fff) 0x00 h &&& 0x0f == 0x0a

/-- The bank of external memory that is selected. There is none if something else is. -/
def ramBank? : Controller.Kind → Option Nat
  | .fixed => some 0
  | .mbc1 => some (if h.isAdvanced then h.highPart .mbc1 else 0)
  | .mbc2 => some 0
  | .mbc3 => if h.selection 0x0f < 4 then some (h.selection 0x0f) else none
  | .mbc5 => some (h.selection 0x0f)

end History

/-! ## Registers -/

theorem oneForZero_eq_max (n : Nat) : oneForZero n = max 1 n := by
  unfold oneForZero
  split <;> omega

/-- The lowest bits of a byte are a remainder. -/
theorem toNat_and_mask (v : UInt8) {k : Nat} (hk : k ≤ 8) :
    (v &&& UInt8.ofNat (2 ^ k - 1)).toNat = v.toNat % 2 ^ k := by
  have hpow : 2 ^ k ≤ 2 ^ 8 := Nat.pow_le_pow_right (by decide) hk
  have hpos : 0 < 2 ^ k := Nat.two_pow_pos k
  rw [UInt8.toNat_and, UInt8.toNat_ofNat', Nat.mod_eq_of_lt (by omega),
    Nat.and_two_pow_sub_one_eq_mod]

/-- The registers hold what the writes so far tell. -/
structure Mbc1.Follows (r : Mbc1) (h : History) : Prop where
  isOpen : r.isOpen = h.isOpen .mbc1
  low : r.low = h.lowPart .mbc1
  high : r.high = h.highPart .mbc1
  advanced : r.advanced = h.isAdvanced

/-- The registers hold what the writes so far tell. -/
structure Mbc2.Follows (r : Mbc2) (h : History) : Prop where
  isOpen : r.isOpen = h.isOpen .mbc2
  bank : r.bank = h.lowPart .mbc2

/-- The registers hold what the writes so far tell. -/
structure Mbc3.Follows (r : Mbc3) (h : History) : Prop where
  isOpen : r.isOpen = h.isOpen .mbc3
  bank : r.bank = h.lowPart .mbc3
  selection : r.selection = h.selection 0x0f

/-- The registers hold what the writes so far tell. -/
structure Mbc5.Follows (r : Mbc5) (h : History) : Prop where
  isOpen : r.isOpen = h.isOpen .mbc5
  low : r.low = h.lowPart .mbc5
  high : r.high = h.highPart .mbc5
  ramBank : r.ramBank = h.selection 0x0f

section Writes

variable {h : History} {a : UInt16} (v : UInt8)

theorem Mbc1.Follows.command {r : Mbc1} (hr : r.Follows h) (ha : a < 0x8000) :
    (r.command a v).Follows ((a, v) :: h) := by
  have htwo : (v &&& 0x03).toNat = v.toNat % 4 := toNat_and_mask v (k := 2) (by decide)
  have hfive : (v &&& 0x1f).toNat = v.toNat % 32 := toNat_and_mask v (k := 5) (by decide)
  obtain ⟨hopen, hlow, hhigh, hadvanced⟩ := hr
  unfold Mbc1.command
  -- each window reaches one register, which the new write tells; the others keep theirs
  split_ifs <;> constructor <;> grind [opens, oneForZero_eq_max]

theorem Mbc2.Follows.command {r : Mbc2} (hr : r.Follows h) :
    (r.command a v).Follows ((a, v) :: h) := by
  have hfour : (v &&& 0x0f).toNat = v.toNat % 16 := toNat_and_mask v (k := 4) (by decide)
  obtain ⟨hopen, hbank⟩ := hr
  unfold Mbc2.command
  split_ifs <;> constructor <;> grind [opens, oneForZero_eq_max]

theorem Mbc3.Follows.command {r : Mbc3} (hr : r.Follows h) :
    (r.command a v).Follows ((a, v) :: h) := by
  have hfour : (v &&& 0x0f).toNat = v.toNat % 16 := toNat_and_mask v (k := 4) (by decide)
  have hseven : (v &&& 0x7f).toNat = v.toNat % 128 := toNat_and_mask v (k := 7) (by decide)
  obtain ⟨hopen, hbank, hselection⟩ := hr
  unfold Mbc3.command
  split_ifs <;> constructor <;> grind [opens, oneForZero_eq_max]

theorem Mbc5.Follows.command {r : Mbc5} (hr : r.Follows h) :
    (r.command a v).Follows ((a, v) :: h) := by
  have hone : (v &&& 0x01).toNat = v.toNat % 2 := toNat_and_mask v (k := 1) (by decide)
  have hfour : (v &&& 0x0f).toNat = v.toNat % 16 := toNat_and_mask v (k := 4) (by decide)
  obtain ⟨hopen, hlow, hhigh, hbank⟩ := hr
  unfold Mbc5.command
  split_ifs <;> constructor <;> grind [opens]

end Writes

/-! ## Controllers -/

namespace Controller

/-- The registers hold what the writes so far tell. -/
def Follows (c : Controller) (h : History) : Prop :=
  match c with
  | .fixed => True
  | .mbc1 r => r.Follows h
  | .mbc2 r => r.Follows h
  | .mbc3 r => r.Follows h
  | .mbc5 r => r.Follows h

/-- At power-up the registers are as if nothing had been written. -/
theorem follows_ofCode {code : UInt8} {c : Controller} (hc : ofCode? code = some c) :
    c.Follows [] := by
  unfold ofCode? at hc
  split_ifs at hc <;> simp only [Option.some.injEq] at hc <;> subst hc
  · trivial
  all_goals constructor <;> rfl

section Follows

variable {c : Controller} {h : History} (hc : c.Follows h)

include hc

theorem Follows.command {a : UInt16} (ha : a < 0x8000) (v : UInt8) :
    (c.command a v).Follows ((a, v) :: h) := by
  cases c with
  | fixed => trivial
  | mbc1 r => exact Mbc1.Follows.command v hc ha
  | mbc2 r => exact Mbc2.Follows.command v hc
  | mbc3 r => exact Mbc3.Follows.command v hc
  | mbc5 r => exact Mbc5.Follows.command v hc

/-- Other writes tell nothing. -/
theorem Follows.skip {a : UInt16} (ha : 0x8000 ≤ a) (v : UInt8) : c.Follows ((a, v) :: h) := by
  cases c with
  | fixed => trivial
  | mbc1 r =>
    obtain ⟨hopen, hlow, hhigh, hadvanced⟩ := hc
    constructor <;> grind
  | mbc2 r =>
    obtain ⟨hopen, hbank⟩ := hc
    constructor <;> grind
  | mbc3 r =>
    obtain ⟨hopen, hbank, hselection⟩ := hc
    constructor <;> grind
  | mbc5 r =>
    obtain ⟨hopen, hlow, hhigh, hbank⟩ := hc
    constructor <;> grind

theorem Follows.writeClock (x : RealTimeClock.Register) (v : UInt8) :
    (c.writeClock x v).Follows h := by
  cases c with
  | mbc3 r => exact ⟨hc.isOpen, hc.bank, hc.selection⟩
  | _ => exact hc

theorem Follows.advance (n : Nat) : (c.advance n).Follows h := by
  cases c with
  | mbc3 r => exact ⟨hc.isOpen, hc.bank, hc.selection⟩
  | _ => exact hc

/-- The windows onto read-only memory show the banks that were told. -/
theorem Follows.banks : c.lowBank = h.lowBank c.kind ∧ c.highBank = h.highBank c.kind := by
  cases c with
  | fixed => exact ⟨rfl, rfl⟩
  | mbc1 r =>
    obtain ⟨-, hlow, hhigh, hadvanced⟩ := hc
    simp only [lowBank, highBank, kind, History.lowBank, History.highBank, hlow, hhigh, hadvanced,
      and_self]
  | mbc2 r => exact ⟨rfl, hc.bank⟩
  | mbc3 r => exact ⟨rfl, hc.bank⟩
  | mbc5 r =>
    obtain ⟨-, hlow, hhigh, -⟩ := hc
    simp only [lowBank, highBank, kind, History.lowBank, History.highBank, hlow, hhigh, and_self]

end Follows

@[simp] theorem kind_command (c : Controller) (a : UInt16) (v : UInt8) :
    (c.command a v).kind = c.kind := by
  cases c <;> rfl

@[simp] theorem kind_writeClock (c : Controller) (x : RealTimeClock.Register) (v : UInt8) :
    (c.writeClock x v).kind = c.kind := by
  cases c <;> rfl

@[simp] theorem kind_advance (c : Controller) (n : Nat) : (c.advance n).kind = c.kind := by
  cases c <;> rfl

end Controller

/-! ## Cartridges -/

namespace Cartridge

/-- What is done to a cartridge. -/
inductive Action
  | write (a : UInt16) (v : UInt8)
  | pass (cycles : Nat)
  | loadRam (saved : ByteArray)

/-- The cartridge after an action. -/
def perform (c : Cartridge) : Action → Cartridge
  | .write a v => c.write a v
  | .pass cycles => c.advance cycles
  | .loadRam saved => c.loadRam saved

instance : Actions Cartridge Action := ⟨perform⟩

/-- What an action writes. -/
def Action.write? : Action → Option (UInt16 × UInt8)
  | .write a v => some (a, v)
  | _ => none

/-- The writes of some actions. -/
def Action.history (as : List Action) : History := (as.filterMap write?).reverse

theorem Action.history_append (as bs : List Action) :
    history (as ++ bs) = history bs ++ history as := by
  rw [history, List.filterMap_append, List.reverse_append]
  rfl

theorem Action.history_cons (x : Action) (as : List Action) :
    history (x :: as) = history as ++ x.write?.toList := by
  unfold history
  cases hx : x.write? <;> simp [hx]

/-- What each of some actions keeps while its write is noted, all of them keep. -/
theorem history_induction {P : Cartridge → History → Prop} {as : List Action}
    (step : ∀ x ∈ as, ∀ c h, P c h → P (c.perform x) (x.write?.toList ++ h)) {c : Cartridge}
    {h : History} (hc : P c h) : P (performAll c as) (Action.history as ++ h) := by
  induction as generalizing c h with
  | nil => exact hc
  | cons x as ih =>
    rw [Action.history_cons, List.append_assoc]
    exact ih (fun y hy => step y (List.mem_cons_of_mem x hy)) (step x List.mem_cons_self c h hc)

section External

variable {a : UInt16}

/-- The window at `0xa000` lies above the others. -/
theorem not_lt_of_external (ha : isExternal a = true) : ¬ a < 0x4000 ∧ ¬ a < 0x8000 := by
  simp only [isExternal, Bool.and_eq_true, decide_eq_true_eq, UInt16.le_iff_toNat_le] at ha
  have hle : 0xa000 ≤ a.toNat := ha.1
  simp only [UInt16.lt_iff_toNat_lt]
  exact ⟨fun h => absurd (Nat.lt_of_lt_of_le h (by decide)) (Nat.not_lt.2 hle),
    fun h => absurd (Nat.lt_of_lt_of_le h (by decide)) (Nat.not_lt.2 hle)⟩

theorem read_external (c : Cartridge) (ha : isExternal a = true) :
    c.read a =
      match c.controller.external with
      | .closed => 0xff
      | .bank n => byteAt c.ram (c.ramIndex n (a.toNat - 0xa000))
      | .halves => 0xf0 ||| byteAt c.ram (halfIndex (a.toNat - 0xa000))
      | .clock r => c.controller.readClock r := by
  obtain ⟨hlow, hhigh⟩ := not_lt_of_external ha
  exact (if_neg hlow).trans ((if_neg hhigh).trans (if_pos ha))

theorem write_external (c : Cartridge) (ha : isExternal a = true) (v : UInt8) :
    c.write a v =
      match c.controller.external with
      | .closed => c
      | .bank n => { c with ram := withByte c.ram (c.ramIndex n (a.toNat - 0xa000)) v }
      | .halves => { c with ram := withByte c.ram (halfIndex (a.toNat - 0xa000)) (v &&& 0x0f) }
      | .clock r => { c with controller := c.controller.writeClock r v } :=
  (if_neg (not_lt_of_external ha).2).trans (if_pos ha)

end External

/-- What is no command leaves the controller, or sets its clock. -/
theorem controller_write (c : Cartridge) {a : UInt16} (ha : ¬ a < 0x8000) (v : UInt8) :
    (c.write a v).controller = c.controller ∨
      ∃ x, (c.write a v).controller = c.controller.writeClock x v := by
  rw [write, if_neg ha]
  split
  · dsimp only
    split
    case h_4 => exact .inr ⟨_, rfl⟩
    all_goals exact .inl rfl
  · exact .inl rfl

/-- A write of any kind is told. -/
theorem follows_write {c : Cartridge} {h : History} (hc : c.controller.Follows h) (a : UInt16)
    (v : UInt8) : (c.write a v).controller.Follows ((a, v) :: h) := by
  by_cases ha : a < 0x8000
  · rw [write, if_pos ha]
    exact hc.command ha v
  · have hskip : c.controller.Follows ((a, v) :: h) := hc.skip (UInt16.not_lt.1 ha) v
    rcases c.controller_write ha v with hsame | ⟨x, hclock⟩
    · rw [hsame]
      exact hskip
    · rw [hclock]
      exact hskip.writeClock x v

theorem kind_write (c : Cartridge) (a : UInt16) (v : UInt8) :
    (c.write a v).controller.kind = c.controller.kind := by
  by_cases ha : a < 0x8000
  · rw [write, if_pos ha]
    exact c.controller.kind_command a v
  · rcases c.controller_write ha v with hsame | ⟨x, hclock⟩
    · rw [hsame]
    · rw [hclock, Controller.kind_writeClock]

/-- In every course of writes and time the registers hold what the writes tell; the kind of the
controller and read-only memory are as they were. -/
theorem follows_performAll {c : Cartridge} {h : History} (hc : c.controller.Follows h)
    (as : List Action) :
    (performAll c as).controller.Follows (Action.history as ++ h) ∧
      (performAll c as).controller.kind = c.controller.kind ∧ (performAll c as).rom = c.rom := by
  refine history_induction (P := fun d h => d.controller.Follows h ∧
    d.controller.kind = c.controller.kind ∧ d.rom = c.rom) ?_ ⟨hc, rfl, rfl⟩
  rintro x - d h ⟨hd, hkind, hrom⟩
  cases x with
  | write a v =>
    exact ⟨follows_write hd a v, (kind_write d a v).trans hkind, (d.rom_write a v).trans hrom⟩
  | pass n => exact ⟨hd.advance n, (d.controller.kind_advance n).trans hkind, hrom⟩
  | loadRam saved => exact ⟨hd, hkind, hrom⟩

end Cartridge

end GameBoy
