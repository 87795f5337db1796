import GameBoy.Proofs.Board.Requests
import GameBoy.Proofs.Machine.Time
import Mathlib.Data.List.Induction

/-!
# The history of the buttons

The register of the buttons holds two bits of the program's and nothing else, and a button is held
from a press to the next release. So what a program reads follows from what was done to the buttons
and to their register, and an interrupt is requested whenever a button goes down, and at no other
time.

* `Request.pressed`, `Request.selection`: what the requests so far tell about a button, and about
  the selected groups.
* `Buttons.Follows`: the buttons are as the requests so far tell; `follows_performAll`: so they are
  after all requests that take no time.
* `buttons_tell_history`: what a program reads, and when an interrupt is requested.
-/

namespace GameBoy

/-! ## Bits of a byte -/

/-- The bits of a byte as those of a number. -/
theorem and_bit_eq_zero {k : UInt8} (hk : k < 8) (v : UInt8) :
    v &&& 1 <<< k = 0 ↔ v.toNat.testBit k.toNat = false := by
  have hbit : (v &&& 1 <<< UInt8.ofNat k.toNat != 0) = v.toNat.testBit k.toNat :=
    and_shiftLeft_ne_zero v ⟨k.toNat, hk⟩
  rw [← hbit, UInt8.ofNat_toNat, bne_eq_false_iff_eq]

/-- The line of the other group with the same place in the register. -/
theorem add_four_lt {k : UInt8} (hk : k < 4) : (k + 4).toNat = 4 + k.toNat ∧ k + 4 < 8 := by
  have hline : k.toNat < 4 := hk
  have hnext : (k + 4).toNat = 4 + k.toNat := by
    rw [UInt8.toNat_add]
    change (_ + 4) % 256 = _
    omega
  refine ⟨hnext, ?_⟩
  rw [UInt8.lt_iff_toNat_lt, hnext]
  exact Nat.add_lt_add_left hline 4

/-! ## Numbers of buttons -/

namespace Button

variable {i : UInt8} {key : Button}

theorem ofIndex?_eq_some : ofIndex? i = some key ↔ i = UInt8.ofNat key.index :=
  forall_byte (P := fun i => ofIndex? i = some key ↔ i = UInt8.ofNat key.index)
    (by cases key <;> decide +kernel) i

theorem ofIndex?_eq_none : ofIndex? i = none ↔ 8 ≤ i :=
  List.getElem?_eq_none_iff

theorem exists_ofIndex? (h : i < 8) : ∃ key, ofIndex? i = some key :=
  Option.ne_none_iff_exists'.1 fun hnone => UInt8.not_lt.2 (ofIndex?_eq_none.1 hnone) h

/-- Each button has one number. -/
theorem eq_iff_of_ofIndex? {j : UInt8} {other : Button} (h : ofIndex? j = some key)
    (hi : ofIndex? i = some other) : j = i ↔ key = other := by
  constructor
  · rintro rfl
    exact Option.some.inj (h.symm.trans hi)
  · rintro rfl
    exact (ofIndex?_eq_some.1 h).trans (ofIndex?_eq_some.1 hi).symm

theorem mask_of_ofIndex? (h : ofIndex? i = some key) : key.mask = 1 <<< i := by
  rw [ofIndex?_eq_some.1 h, mask]

end Button

/-- Line `k` is low if the button of a selected group that pulls it is held. -/
theorem Buttons.exists_read (s : Buttons) :
    ∃ low : UInt8, low < 0x10 ∧ s.read = 0xc0 ||| s.selection ||| low ∧
      ∀ k : UInt8, k < 4 → (low &&& 1 <<< k = 0 ↔
        s.selection &&& 0x10 = 0 ∧ s.lines &&& 1 <<< k = 0 ∨
          s.selection &&& 0x20 = 0 ∧ s.lines &&& 1 <<< (k + 4) = 0) := by
  refine ⟨_, ?_, rfl, fun k hk => ?_⟩
  · rw [UInt8.lt_iff_toNat_lt, UInt8.toNat_and]
    refine Nat.lt_of_le_of_lt Nat.and_le_left ?_
    split_ifs
    · rw [UInt8.toNat_and]
      exact Nat.lt_succ_of_le Nat.and_le_right
    · decide
  · have hk8 : k < 8 := UInt8.lt_trans hk (by decide)
    obtain ⟨hnext, hnext8⟩ := add_four_lt hk
    have hopen : Nat.testBit 15 k.toNat = true :=
      (Nat.testBit_two_pow_sub_one 4 _).trans (decide_eq_true hk)
    rw [and_bit_eq_zero hk8, and_bit_eq_zero hk8, and_bit_eq_zero hnext8, hnext]
    by_cases hdirections : s.selection &&& 0x10 = 0 <;>
      by_cases hothers : s.selection &&& 0x20 = 0 <;>
      simp [hdirections, hothers, hopen, UInt8.toNat_shiftRight, imp_iff_not_or]

namespace Machine

/-! ## What the requests so far tell -/

namespace Request

variable {α : Type}

/-- It takes no time, so the program does not go on. -/
def Instant : Request → Prop
  | .tick | .runFrame => False
  | _ => True

/-- What it does to button `i`, if it does anything: whether the button goes down. -/
def moves? (i : UInt8) : Request → Option Bool
  | .press j => if j = i then some true else none
  | .release j => if j = i then some false else none
  | _ => none

/-- The bits that it writes to the register of the buttons, if it does. -/
def selects? : Request → Option UInt8
  | .write a v => if a = 0xff00 then some (v &&& 0x30) else none
  | _ => none

/-- What the last of the requests tells that tells anything, `start` if none does. -/
def last (f : Request → Option α) (start : α) (rs : List Request) : α :=
  (rs.filterMap f).getLast?.getD start

/-- Whether the last thing that was done to button `i` is a press. -/
def pressed (rs : List Request) (i : UInt8) : Bool := last (moves? i) false rs

/-- The selection of groups that was written last, none of them at power-up. -/
def selection (rs : List Request) : UInt8 := last selects? 0x30 rs

/-- One more request may tell something new. -/
theorem last_concat (f : Request → Option α) (start : α) (rs : List Request) (r : Request) :
    last f start (rs ++ [r]) = (f r).getD (last f start rs) := by
  unfold last
  cases h : f r <;> simp [List.filterMap_append, h]

theorem pressed_concat (rs : List Request) (r : Request) (i : UInt8) :
    pressed (rs ++ [r]) i = (r.moves? i).getD (pressed rs i) := last_concat ..

theorem selection_concat (rs : List Request) (r : Request) :
    selection (rs ++ [r]) = r.selects?.getD (selection rs) := last_concat ..

end Request

end Machine

open Machine (Request)

/-! ## The buttons -/

namespace Buttons

variable {s : Buttons} {rs : List Request}

/-- The buttons and their selection are as the requests so far tell. -/
structure Follows (s : Buttons) (rs : List Request) : Prop where
  selection : s.selection = Request.selection rs
  held : ∀ i key, Button.ofIndex? i = some key → s.isHeld key = Request.pressed rs i

theorem follows_powerUp : ({} : Buttons).Follows [] := by
  refine ⟨rfl, fun i key _ => ?_⟩
  cases key <;> rfl

theorem Follows.line (h : s.Follows rs) {k : UInt8} (hk : k < 8) :
    s.lines &&& 1 <<< k = 0 ↔ Request.pressed rs k = true := by
  obtain ⟨key, hkey⟩ := Button.exists_ofIndex? hk
  rw [← h.held k key hkey, ← Button.mask_of_ofIndex? hkey]
  exact beq_iff_eq.symm

/-- So they are after one more request, if that changes what it tells and nothing else. -/
theorem Follows.concat (h : s.Follows rs) {t : Buttons} {r : Request}
    (hselection : t.selection = r.selects?.getD s.selection)
    (hheld : ∀ i key, Button.ofIndex? i = some key →
      t.isHeld key = (r.moves? i).getD (s.isHeld key)) :
    t.Follows (rs ++ [r]) := by
  refine ⟨?_, fun i key hi => ?_⟩
  · rw [hselection, Request.selection_concat, h.selection]
  · rw [hheld i key hi, Request.pressed_concat, h.held i key hi]

theorem Follows.write (h : s.Follows rs) (v : UInt8) :
    (s.write v).Follows (rs ++ [.write 0xff00 v]) :=
  h.concat rfl fun _ _ _ => rfl

theorem Follows.press (h : s.Follows rs) {j : UInt8} {key : Button}
    (hj : Button.ofIndex? j = some key) : (s.press key).1.Follows (rs ++ [.press j]) := by
  refine h.concat rfl fun i other hi => ?_
  simp only [Request.moves?, isHeld_press, Button.eq_iff_of_ofIndex? hj hi]
  by_cases hkey : key = other <;> simp [hkey]

theorem Follows.release (h : s.Follows rs) {j : UInt8} {key : Button}
    (hj : Button.ofIndex? j = some key) : (s.release key).Follows (rs ++ [.release j]) := by
  refine h.concat rfl fun i other hi => ?_
  simp only [Request.moves?, isHeld_release, Button.eq_iff_of_ofIndex? hj hi]
  by_cases hkey : key = other <;> simp [hkey]

end Buttons

/-! ## The board -/

theorem Location.find_buttons (model : Model) : find model 0xff00 = .buttons := by
  cases model <;> rfl

theorem Location.find_eq_buttons {model : Model} {a : UInt16} (h : find model a = .buttons) :
    a = 0xff00 := by
  cases LiesAt.of_find h with
  | buttons address => exact address

namespace Board

/-- A write reaches the buttons at one address only. -/
theorem buttons_write (b : Board) (a : UInt16) (v : UInt8) :
    (b.write a v).buttons = if a = 0xff00 then b.buttons.write v else b.buttons := by
  split_ifs with ha
  · rw [ha, write, Location.find_buttons]
    rfl
  · have hfind : Location.find b.model a ≠ .buttons := mt Location.find_eq_buttons ha
    unfold write
    generalize Location.find b.model a = l at hfind
    cases l with
    | buttons => exact absurd rfl hfind
    | spriteCopy =>
      obtain ⟨page, oam, hcopied⟩ := b.copySprites_frame v
      simp only [writeAt, hcopied]
    | _ => rfl

theorem read_buttons (b : Board) : b.read 0xff00 = b.buttons.read := by
  rw [read, Location.find_buttons]
  rfl

/-- The bit of the buttons' interrupt in the request register. -/
theorem read_requests_buttons (b : Board) :
    b.read 0xff0f &&& 0x10 ≠ 0 ↔ b.requests.has .buttons = true := by
  have hunused : (0xe0 : UInt8) &&& 0x10 = 0 := by decide
  have hread : b.read 0xff0f &&& 0x10 = b.requests.bits &&& 0x10 := by
    rw [read, Location.find_requests]
    change (b.requests.bits ||| 0xe0) &&& 0x10 = _
    rw [or_and_mask, hunused, UInt8.or_zero]
  rw [hread]
  exact bne_iff_ne.symm

/-- A program's write to the request register sets the bit as it says. -/
theorem has_buttons_write (b : Board) (v : UInt8) :
    (b.write 0xff0f v).requests.has .buttons = true ↔ v &&& 0x10 ≠ 0 := by
  have hlow : (0x1f : UInt8) &&& 0x10 = 0x10 := by decide
  rw [write, Location.find_requests]
  change (v &&& 0x1f &&& 0x10 != 0) = true ↔ _
  rw [UInt8.and_assoc, hlow]
  exact bne_iff_ne

end Board

namespace Machine

variable {m : Machine} {rs : List Request} {r : Request}

/-- What is done to the buttons and their register without letting time pass is all that changes
them. -/
theorem follows_perform (h : m.board.buttons.Follows rs) (hr : r.Instant) :
    (m.perform r).board.buttons.Follows (rs ++ [r]) := by
  cases r with
  | tick | runFrame => exact hr.elim
  | write a v =>
    change (m.board.write a v).buttons.Follows _
    rw [Board.buttons_write]
    split_ifs with ha
    · rw [ha]
      exact h.write v
    · have hnone : (Request.write a v).selects? = none := if_neg ha
      exact h.concat (by rw [hnone]; rfl) fun _ _ _ => rfl
  | press j =>
    simp only [perform, press]
    split
    · exact h.press ‹_›
    · rename_i hj
      refine h.concat rfl fun i key hi => ?_
      have hother : j ≠ i := by
        rintro rfl
        cases hj.symm.trans hi
      rw [Request.moves?, if_neg hother]
      rfl
  | release j =>
    simp only [perform, release]
    split
    · exact h.release ‹_›
    · rename_i hj
      refine h.concat rfl fun i key hi => ?_
      have hother : j ≠ i := by
        rintro rfl
        cases hj.symm.trans hi
      rw [Request.moves?, if_neg hother]
      rfl
  | read | takeFrame | loadRam => exact h.concat rfl fun _ _ _ => rfl

theorem follows_performAll (h : m.board.buttons.Follows []) (hrs : ∀ r ∈ rs, r.Instant) :
    (performAll m rs).board.buttons.Follows rs := by
  induction rs using List.reverseRecOn with
  | nil => exact h
  | append_singleton rs r ih =>
    have hbefore := ih fun r' hr' => hrs r' (List.mem_append_left _ hr')
    have hlast := follows_perform hbefore (hrs r (List.mem_append_right _ List.mem_cons_self))
    rwa [performAll_append]

/-- What requests the buttons' interrupt without letting time pass: a button that goes down. -/
theorem has_buttons_perform (hm : m.board.Reachable) (h : m.board.buttons.Follows rs)
    (hr : r.Instant) (hrequests : ∀ v, r ≠ .write 0xff0f v) :
    (m.perform r).board.requests.has .buttons = true ↔
      m.board.requests.has .buttons = true ∨
        ∃ i, r = .press i ∧ i < 8 ∧ Request.pressed rs i = false := by
  have hnone (hsame : (m.perform r).board.requests.has .buttons = m.board.requests.has .buttons)
      (hpress : ∀ i, i < 8 → r ≠ .press i) :
      (m.perform r).board.requests.has .buttons = true ↔
        m.board.requests.has .buttons = true ∨
          ∃ i, r = .press i ∧ i < 8 ∧ Request.pressed rs i = false := by
    rw [hsame]
    exact (or_iff_left fun ⟨i, hi, hlt, _⟩ => hpress i hlt hi).symm
  cases r with
  | tick | runFrame => exact hr.elim
  | write a v =>
    have ha : a ≠ 0xff0f := by
      rintro rfl
      exact hrequests v rfl
    refine hnone ?_ (by simp)
    rw [Bool.eq_iff_iff]
    refine (Board.has_write hm.video.settled ha v .buttons).trans (or_iff_left ?_)
    rintro ⟨hdisplay, -⟩
    cases hdisplay
  | press j =>
    cases hj : Button.ofIndex? j with
    | none =>
      refine hnone ?_ fun i hi heq => ?_
      · simp only [perform, press, hj]
        rfl
      · obtain rfl := Request.press.inj heq
        exact UInt8.not_lt.2 (Button.ofIndex?_eq_none.1 hj) hi
    | some key =>
      have hlt : j < 8 := by
        rw [← UInt8.not_le, ← Button.ofIndex?_eq_none, hj]
        exact Option.some_ne_none key
      simp only [perform, press, hj]
      rw [Board.has_press, h.held j key hj]
      refine or_congr .rfl ⟨fun hup => ⟨j, rfl, hlt, hup.2⟩, ?_⟩
      rintro ⟨i, heq, -, hup⟩
      obtain rfl := Request.press.inj heq
      exact ⟨rfl, hup⟩
  | release j =>
    refine hnone ?_ (by simp)
    simp only [perform, release]
    split <;> rfl
  | read | takeFrame | loadRam => exact hnone rfl (by simp)

/-- What a program reads of the buttons follows from what was done to them. Two bits are always set;
the next two are those that were last written, and set at power-up; and line `k` of the other four
is low exactly if the directions are selected and the last thing done to button `k` is a press, or
the other buttons are and so it is for button `k + 4`. The buttons' interrupt is requested by the
press of a button that the last thing done to was not a press already, and by nothing else that
takes no time: by no release, no repeated press, no button that does not exist, and no write but the
ones to the request register itself, which put there what they say. -/
theorem buttons_tell_history {image : ByteArray} {options : Options} {journal : Journal}
    {start : Machine} (hstart : powerUp image options journal = .ok start) (rs : List Request)
    (hrs : ∀ r ∈ rs, r.Instant) :
    let m := performAll start rs
    (∃ low : UInt8, low < 0x10 ∧ m.read 0xff00 = 0xc0 ||| Request.selection rs ||| low ∧
      ∀ k : UInt8, k < 4 → (low &&& 1 <<< k = 0 ↔
        Request.selection rs &&& 0x10 = 0 ∧ Request.pressed rs k = true ∨
          Request.selection rs &&& 0x20 = 0 ∧ Request.pressed rs (k + 4) = true)) ∧
    start.read 0xff0f &&& 0x10 = 0 ∧
    (∀ v, (m.write 0xff0f v).read 0xff0f &&& 0x10 ≠ 0 ↔ v &&& 0x10 ≠ 0) ∧
    ∀ r : Request, r.Instant → (∀ v, r ≠ .write 0xff0f v) →
      ((m.perform r).read 0xff0f &&& 0x10 ≠ 0 ↔
        m.read 0xff0f &&& 0x10 ≠ 0 ∨
          ∃ i, r = .press i ∧ i < 8 ∧ Request.pressed rs i = false) := by
  intro m
  obtain ⟨cartridge, model, notices, hload, rfl⟩ := powerUp_eq_ok hstart
  have hboard : Board.Reachable (.powerUp cartridge model notices) := .powerUp hload model notices
  have hfollows : m.board.buttons.Follows rs := follows_performAll Buttons.follows_powerUp hrs
  refine ⟨?_, ?_, fun v => ?_, fun r hr hrequests => ?_⟩
  · obtain ⟨low, hlow, hread, hlines⟩ := m.board.buttons.exists_read
    refine ⟨low, hlow, ?_, fun k hk => ?_⟩
    · rw [← hfollows.selection, ← hread]
      exact m.board.read_buttons
    · rw [hlines k hk, hfollows.line (UInt8.lt_trans hk (by decide)),
        hfollows.line (add_four_lt hk).2, hfollows.selection]
  · have hnone : (∅ : Requests).has .buttons = false := Requests.has_empty _
    exact by_contra fun hset =>
      Bool.eq_false_iff.1 hnone ((Board.read_requests_buttons _).1 hset)
  · exact (Board.read_requests_buttons _).trans (m.board.has_buttons_write v)
  · have hstep := has_buttons_perform (reachable_performAll hboard rs) hfollows hr hrequests
    rw [← Board.read_requests_buttons, ← Board.read_requests_buttons] at hstep
    exact hstep

/-- With the directions selected the press of a direction pulls its line low and requests an
interrupt; pressed again it requests no other. -/
theorem buttons_tell_history_right :
    ∃ start, powerUp Cartridge.zeroImage { model? := some .cgb } {} = .ok start ∧
      let selected := performAll start [.write 0xff00 0x20]
      let pressed := performAll start [.write 0xff00 0x20, .press 0]
      let acknowledged := performAll start [.write 0xff00 0x20, .press 0, .write 0xff0f 0]
      selected.read 0xff00 &&& 0x01 ≠ 0 ∧ pressed.read 0xff00 &&& 0x01 = 0 ∧
      pressed.read 0xff0f &&& 0x10 ≠ 0 ∧
      ¬ (acknowledged.perform (.press 0)).read 0xff0f &&& 0x10 ≠ 0 := by
  obtain ⟨start, hstart⟩ := powerUp_zeroImage
  have hinstant : ∀ r ∈ [Request.write 0xff00 0x20, .press 0, .write 0xff0f 0], r.Instant := by
    simp [Request.Instant]
  obtain ⟨⟨low, -, hread, hlines⟩, -, -, hselected⟩ := buttons_tell_history hstart
    [.write 0xff00 0x20] fun r hr => hinstant r (List.mem_of_mem_take (i := 1) hr)
  obtain ⟨⟨low', -, hread', hlines'⟩, -, hwrite, -⟩ := buttons_tell_history hstart
    [.write 0xff00 0x20, .press 0] fun r hr => hinstant r (List.mem_of_mem_take (i := 2) hr)
  obtain ⟨-, -, -, hacknowledged⟩ := buttons_tell_history hstart _ hinstant
  refine ⟨start, hstart, ?_, ?_, ?_, ?_⟩
  · rw [hread, or_and_mask]
    exact mt (UInt8.zero_or.symm.trans ·) (mt (hlines 0 (by decide)).1 (by decide))
  · rw [hread', or_and_mask]
    exact UInt8.zero_or.trans ((hlines' 0 (by decide)).2 (.inl ⟨rfl, rfl⟩))
  · exact (hselected (.press 0) trivial nofun).2 (.inr ⟨0, rfl, by decide, rfl⟩)
  · rw [hacknowledged (.press 0) trivial nofun]
    rintro (hbefore | ⟨i, hi, -, hup⟩)
    · exact (hwrite 0).1 hbefore rfl
    · obtain rfl := Request.press.inj hi
      cases hup

end Machine

end GameBoy
