import GameBoy.Proofs.Cartridge.Calendar

/-!
# What a program reads of the clock

A program never reads the clock itself, which might move on between two of its registers, but a copy
of all registers. The copy is taken at one moment, when a one is written after a zero to the window
at `0x6000`. It stays until the next such write, however much time passes and whatever is selected
meanwhile.

* `History.Latches`: the writes that take the copy.
* `History.clockRegister?`: the register that an address reaches, as the writes so far tell.
* `Cartridge.NoLatch`, `Cartridge.LastLatch`: the last such write among some actions, if there is
  one.
* `Cartridge.latched?_performAll`: the copy stays while nothing latches and no register is set.
* `Cartridge.reads_latched`: what a program reads in every course of writes and time.
-/

namespace GameBoy

namespace History

/-! ## What the writes so far tell -/

/-- The last byte that was written to the window for the latch, if one was. -/
def latch? (h : History) : Option UInt8 :=
  (h.find? fun w => within 0x6000 0x7fff w.1).map Prod.snd

/-- A write latches: it writes a one to the window for that, and the last byte there was a zero. -/
def Latches (h : History) (w : UInt16 × UInt8) : Prop :=
  within 0x6000 0x7fff w.1 = true ∧ w.2 = 0x01 ∧ h.latch? = some 0x00

instance (h : History) : DecidablePred h.Latches := fun w =>
  inferInstanceAs (Decidable (within 0x6000 0x7fff w.1 = true ∧ w.2 = 0x01 ∧ h.latch? = some 0x00))

/-- The register of the clock that an address reaches: none unless external memory is open and the
number of a register is selected. -/
def clockRegister? (h : History) (a : UInt16) : Option RealTimeClock.Register :=
  if Cartridge.isExternal a ∧ h.isOpen .mbc3 then
    RealTimeClock.Register.ofNumber? (h.selection 0x0f)
  else none

theorem latch?_cons (w : UInt16 × UInt8) (h : History) :
    latch? (w :: h) = if within 0x6000 0x7fff w.1 then some w.2 else h.latch? := by
  unfold latch?
  rw [List.find?_cons]
  cases within 0x6000 0x7fff w.1 <;> rfl

end History

/-- Banks have other numbers than the registers of the clock. -/
theorem RealTimeClock.Register.ofNumber?_of_lt {n : Nat} (hn : n < 4) : ofNumber? n = none := by
  match n, hn with
  | 0, _ | 1, _ | 2, _ | 3, _ => rfl

/-! ## The controller -/

/-- A command takes a new copy if it is the second of two that go to the latch. -/
theorem Mbc3.latched_command (r : Mbc3) (a : UInt16) (v : UInt8) :
    (r.command a v).latched =
      if ¬ a < 0x6000 ∧ r.latch = 0x00 ∧ v = 0x01 then r.clock else r.latched := by
  unfold command
  split_ifs <;> grind

namespace Controller

/-- The copy of its clock that a program reads, if there is one. -/
def latched? : Controller → Option RealTimeClock
  | .mbc3 r => some r.latched
  | _ => none

/-- It has a clock, and the other registers hold what the writes so far tell. -/
structure Awaits (c : Controller) (h : History) : Prop where
  follows : c.Follows h
  latch : ∃ r, c = .mbc3 r ∧ r.latch = h.latch?.getD 0xff

variable {c : Controller} {h : History} {a : UInt16}

theorem Awaits.exists_eq (hc : c.Awaits h) : ∃ r, c = .mbc3 r :=
  hc.latch.imp fun _ hr => hr.1

/-- At power-up nothing has been written to the latch. -/
theorem awaits_ofCode {code : UInt8} (hc : ofCode? code = some c) (hkind : c.kind = .mbc3) :
    c.Awaits [] := by
  refine ⟨follows_ofCode hc, ?_⟩
  unfold ofCode? at hc
  split_ifs at hc <;> simp only [Option.some.injEq] at hc <;> subst hc
  any_goals cases hkind
  exact ⟨{}, rfl, rfl⟩

theorem Awaits.command (hc : c.Awaits h) (ha : a < 0x8000) (v : UInt8) :
    (c.command a v).Awaits ((a, v) :: h) := by
  obtain ⟨hfollows, r, rfl, hlatch⟩ := hc
  refine ⟨hfollows.command ha v, r.command a v, rfl, ?_⟩
  rw [History.latch?_cons]
  unfold Mbc3.command
  split_ifs <;> grind

/-- Other writes reach neither the registers nor the latch. -/
theorem Awaits.skip (hc : c.Awaits h) (ha : ¬ a < 0x8000) (v : UInt8) :
    c.Awaits ((a, v) :: h) := by
  obtain ⟨hfollows, r, rfl, hlatch⟩ := hc
  have hwindow : History.within 0x6000 0x7fff a = false := by grind
  refine ⟨hfollows.skip (UInt16.not_lt.1 ha) v, r, rfl, ?_⟩
  rw [History.latch?_cons, hwindow]
  exact hlatch

theorem Awaits.writeClock (hc : c.Awaits h) (x : RealTimeClock.Register) (v : UInt8) :
    (c.writeClock x v).Awaits h := by
  obtain ⟨hfollows, r, rfl, hlatch⟩ := hc
  exact ⟨hfollows.writeClock x v, _, rfl, hlatch⟩

theorem Awaits.advance (hc : c.Awaits h) (n : Nat) : (c.advance n).Awaits h := by
  obtain ⟨hfollows, r, rfl, hlatch⟩ := hc
  exact ⟨hfollows.advance n, _, rfl, hlatch⟩

/-- Which commands latch, by the last byte that the controller remembers. -/
theorem Awaits.latches_iff {r : Mbc3} (hr : (mbc3 r).Awaits h) (ha : a < 0x8000) (v : UInt8) :
    h.Latches (a, v) ↔ ¬ a < 0x6000 ∧ r.latch = 0x00 ∧ v = 0x01 := by
  obtain ⟨-, s, hs, hlatch⟩ := hr
  obtain rfl : r = s := mbc3.inj hs
  have hzero : r.latch = 0x00 ↔ h.latch? = some 0x00 := by
    rw [hlatch]
    cases h.latch? <;> simp
  have hwindow : History.within 0x6000 0x7fff a = true ↔ ¬ a < 0x6000 := by grind
  rw [hzero, ← hwindow, History.Latches, and_comm (a := v = 0x01)]

/-- After a command the copy is a new one if the command latches. -/
theorem Awaits.latched?_command (hc : c.Awaits h) (ha : a < 0x8000) (v : UInt8) :
    (c.command a v).latched? = if h.Latches (a, v) then c.clock? else c.latched? := by
  obtain ⟨r, rfl⟩ := hc.exists_eq
  change some (r.command a v).latched = if h.Latches (a, v) then some r.clock else some r.latched
  rw [r.latched_command, apply_ite some]
  simp only [hc.latches_iff ha v]

/-- Time that passes moves the clock and not the copy. -/
theorem latched?_advance (c : Controller) (n : Nat) : (c.advance n).latched? = c.latched? := by
  cases c <;> rfl

end Controller

/-! ## The cartridge -/

namespace Cartridge

open History (within)

variable {c : Cartridge} {h : History} {a : UInt16}

/-- The writes so far tell which register of the clock an address reaches. -/
theorem clockRegister?_eq (hc : c.controller.Awaits h) (a : UInt16) :
    c.clockRegister? a = h.clockRegister? a := by
  obtain ⟨hfollows, r, hr, -⟩ := hc
  rw [hr] at hfollows
  unfold clockRegister? History.clockRegister?
  rw [hr, ← hfollows.isOpen, ← hfollows.selection]
  by_cases ha : isExternal a
  · cases hopen : r.isOpen with
    | false => simp [Controller.external, hopen]
    | true =>
      by_cases hbank : r.selection < 4
      · simp [Controller.external, hopen, hbank, ha, RealTimeClock.Register.ofNumber?_of_lt hbank]
      · cases hx : RealTimeClock.Register.ofNumber? r.selection <;>
          simp [Controller.external, hopen, hbank, ha, hx]
  · simp [ha]

theorem awaits_write (hc : c.controller.Awaits h) (a : UInt16) (v : UInt8) :
    (c.write a v).controller.Awaits ((a, v) :: h) := by
  by_cases ha : a < 0x8000
  · rw [write, if_pos ha]
    exact hc.command ha v
  · rcases c.controller_write ha v with hsame | ⟨x, hclock⟩
    · rw [hsame]
      exact hc.skip ha v
    · rw [hclock]
      exact (hc.skip ha v).writeClock x v

/-- Whatever is done to it, a cartridge with a clock goes on following the writes. -/
theorem awaits_performAll (hc : c.controller.Awaits h) (as : List Action) :
    (performAll c as).controller.Awaits (Action.history as ++ h) := by
  refine history_induction (P := fun d h => d.controller.Awaits h) ?_ hc
  intro x _ d h hd
  cases x with
  | write a v => exact awaits_write hd a v
  | pass n => exact hd.advance n
  | loadRam saved => exact hd

theorem awaits_of_load {image : ByteArray} (hload : load image = .ok c)
    (hkind : c.controller.kind = .mbc3) (as : List Action) :
    (performAll c as).controller.Awaits (Action.history as) := by
  obtain ⟨-, -, -, -, -, hcode⟩ := load_eq_ok hload
  exact List.append_nil (Action.history as) ▸
    awaits_performAll (Controller.awaits_ofCode hcode hkind) as

/-- A write that sets no register of the clock takes a new copy if it latches, and leaves the copy
otherwise. -/
theorem latched?_write (hc : c.controller.Awaits h) (hunset : h.clockRegister? a = none)
    (v : UInt8) :
    (c.write a v).controller.latched? =
      if h.Latches (a, v) then c.controller.clock? else c.controller.latched? := by
  by_cases ha : a < 0x8000
  · rw [write, if_pos ha]
    exact hc.latched?_command ha v
  · have hnot : ¬ h.Latches (a, v) := by
      rintro ⟨hwindow, -⟩
      grind
    rw [controller_write_external ha, clockRegister?_eq hc, hunset, if_neg hnot]
    rfl

/-- A program reads the copy. -/
theorem read_of_latched (hc : c.controller.Awaits h) {t : RealTimeClock}
    (ht : c.controller.latched? = some t) {x : RealTimeClock.Register}
    (hx : h.clockRegister? a = some x) : c.read a = t.read x := by
  obtain ⟨r, hr⟩ := hc.exists_eq
  rw [hr] at ht
  obtain rfl : r.latched = t := Option.some.inj ht
  rw [← clockRegister?_eq hc, clockRegister?] at hx
  split at hx
  case isFalse => cases hx
  case isTrue ha =>
    rw [c.read_external ha]
    cases hexternal : c.controller.external <;> simp only [hexternal, reduceCtorEq] at hx
    obtain rfl := Option.some.inj hx
    rw [hr]
    rfl

/-! ## Courses -/

/-- Each write among some actions has a property, given the writes before it. -/
def Action.EachWrite (P : History → UInt16 × UInt8 → Prop) (h : History) : List Action → Prop
  | [] => True
  | x :: as => (∀ w ∈ x.write?, P h w) ∧ EachWrite P (x.write?.toList ++ h) as

namespace Action

variable {P : History → UInt16 × UInt8 → Prop}

instance decidableEachWrite [∀ h, DecidablePred (P h)] (h : History) :
    DecidablePred (EachWrite P h)
  | [] => .isTrue trivial
  | x :: as =>
    have : Decidable (∀ w ∈ x.write?, P h w) := Option.decidableForallMem x.write?
    have := decidableEachWrite (x.write?.toList ++ h) as
    inferInstanceAs (Decidable ((∀ w ∈ x.write?, P h w) ∧ EachWrite P (x.write?.toList ++ h) as))

theorem eachWrite_append (as bs : List Action) :
    EachWrite P h (as ++ bs) ↔ EachWrite P h as ∧ EachWrite P (history as ++ h) bs := by
  induction as generalizing h with
  | nil => exact (and_iff_right trivial).symm
  | cons x as ih =>
    rw [List.cons_append, EachWrite, EachWrite, ih, history_cons, List.append_assoc, and_assoc]

end Action

/-- None of some actions sets a register of the clock. -/
abbrev SetsNone : History → List Action → Prop :=
  Action.EachWrite fun h w => h.clockRegister? w.1 = none

/-- None of some actions latches. -/
abbrev NoLatch : History → List Action → Prop := Action.EachWrite fun h w => ¬ h.Latches w

/-- Among some actions `before` are those before the last one that latches. -/
def LastLatch (h : History) (as before : List Action) : Prop :=
  ∃ a v after, as = before ++ .write a v :: after ∧ (Action.history before ++ h).Latches (a, v) ∧
    NoLatch ((a, v) :: (Action.history before ++ h)) after

/-- If any of some actions latch, one of them is the last. -/
theorem noLatch_or_exists_lastLatch (h : History) (as : List Action) :
    NoLatch h as ∨ ∃ before, LastLatch h as before := by
  induction as generalizing h with
  | nil => exact .inl trivial
  | cons x as ih =>
    rcases ih (x.write?.toList ++ h) with hnone | ⟨before, a, v, after, rfl, hlatches, hnone⟩
    · cases x with
      | write a v =>
        by_cases hx : h.Latches (a, v)
        · exact .inr ⟨[], a, v, as, rfl, hx, hnone⟩
        · refine .inl ⟨fun w hw => ?_, hnone⟩
          obtain rfl := Option.some.inj hw
          exact hx
      | _ => exact .inl ⟨nofun, hnone⟩
    · refine .inr ⟨x :: before, a, v, after, rfl, ?_, ?_⟩ <;>
        rwa [Action.history_cons, List.append_assoc]

/-- While nothing latches and no register is set, the copy stays. -/
theorem latched?_performAll (hc : c.controller.Awaits h) {as : List Action}
    (hunset : SetsNone h as) (hnone : NoLatch h as) :
    (performAll c as).controller.latched? = c.controller.latched? := by
  induction as generalizing c h with
  | nil => rfl
  | cons x as ih =>
    obtain ⟨hx, hunset⟩ := hunset
    obtain ⟨hnot, hnone⟩ := hnone
    cases x with
    | write a v =>
      refine (ih (awaits_write hc a v) hunset hnone).trans ?_
      rw [latched?_write hc (hx (a, v) rfl), if_neg (hnot (a, v) rfl)]
    | pass n => exact (ih (hc.advance n) hunset hnone).trans (Controller.latched?_advance ..)
    | loadRam saved => exact ih (c := c.loadRam saved) hc hunset hnone

/-- After the last write that latches, the copy is the clock as it was then. -/
theorem latched?_of_lastLatch (hc : c.controller.Awaits h) {as before : List Action}
    (hunset : SetsNone h as) (hlast : LastLatch h as before) :
    (performAll c as).controller.latched? = (performAll c before).controller.clock? := by
  obtain ⟨a, v, after, rfl, hlatches, hnone⟩ := hlast
  obtain ⟨-, hx, hafter⟩ := (Action.eachWrite_append ..).1 hunset
  have hbefore := awaits_performAll hc before
  rw [performAll_append]
  refine (latched?_performAll (awaits_write hbefore a v) hafter hnone).trans ?_
  rw [latched?_write hbefore (hx (a, v) rfl), if_pos hlatches]

/-- A write to the latch that does not latch changes nothing that a program can read. -/
theorem read_write_of_not_latches (hc : c.controller.Awaits h)
    (ha : within 0x6000 0x7fff a = true) {v : UInt8} (hnot : ¬ h.Latches (a, v)) :
    (c.write a v).read = c.read := by
  have hcommand : a < 0x8000 := by grind
  have hlatch : ¬ a < 0x2000 ∧ ¬ a < 0x4000 ∧ ¬ a < 0x6000 := by grind
  obtain ⟨rom, ram, controller⟩ := c
  obtain ⟨r, rfl⟩ := hc.exists_eq
  have hkeeps : ¬ (r.latch = 0x00 ∧ v = 0x01) :=
    fun hboth => hnot ((hc.latches_iff hcommand v).2 ⟨hlatch.2.2, hboth⟩)
  rw [write, if_pos hcommand, Controller.command, Mbc3.command, if_neg hlatch.1,
    if_neg hlatch.2.1, if_neg hlatch.2.2, if_neg hkeeps]
  rfl

/-- The clock's registers, as far as a program can reach them, read as in `t`. -/
def ReadsClock (c : Cartridge) (h : History) (t : RealTimeClock) : Prop :=
  ∀ a x, h.clockRegister? a = some x → c.read a = t.read x

/-- What a program reads of the clock in every course of writes and time. From some moment on let
none of the actions `bs` set a register of the clock. Then a program reads all registers as they
were at one moment: when the last write latched or, if none did, when the copy was taken that was
there before. A write latches only if it is a one after a zero. -/
theorem reads_latched {image : ByteArray} {c : Cartridge} (hload : load image = .ok c)
    (hkind : c.controller.kind = .mbc3) (as bs : List Action)
    (hunset : SetsNone (Action.history as) bs) :
    let h := Action.history (as ++ bs)
    let d := performAll c (as ++ bs)
    (NoLatch (Action.history as) bs →
      ∃ t, (performAll c as).controller.latched? = some t ∧ t.Shown ∧ d.ReadsClock h t) ∧
    (∀ before, LastLatch (Action.history as) bs before →
      ∃ t, (performAll c (as ++ before)).controller.clock? = some t ∧ t.Shown ∧
        d.ReadsClock h t) ∧
    (NoLatch (Action.history as) bs ∨ ∃ before, LastLatch (Action.history as) bs before) ∧
    ∀ a v, within 0x6000 0x7fff a = true → h.latch? ≠ some 0x00 ∨ v ≠ 0x01 →
      (d.write a v).read = d.read := by
  intro h d
  have hstart := awaits_of_load hload hkind as
  have hend : d.controller.Awaits h := awaits_of_load hload hkind (as ++ bs)
  have hreads {t : RealTimeClock} (ht : d.controller.latched? = some t) : d.ReadsClock h t :=
    fun a x hx => read_of_latched hend ht hx
  have hd : d = performAll (performAll c as) bs := performAll_append c as bs
  refine ⟨fun hnone => ?_, fun before hlast => ?_, noLatch_or_exists_lastLatch .., ?_⟩
  · obtain ⟨r, hr⟩ := hstart.exists_eq
    have ht : (performAll c as).controller.latched? = some r.latched := by rw [hr]; rfl
    refine ⟨r.latched, ht, r.latched.shown, hreads ?_⟩
    rw [hd, latched?_performAll hstart hunset hnone, ht]
  · rw [performAll_append]
    obtain ⟨r, hr⟩ := (awaits_performAll hstart before).exists_eq
    have ht : (performAll (performAll c as) before).controller.clock? = some r.clock := by
      rw [hr]
      rfl
    refine ⟨r.clock, ht, r.clock.shown, hreads ?_⟩
    rw [hd, latched?_of_lastLatch hstart hunset hlast, ht]
  · intro a v ha hnot
    refine read_write_of_not_latches hend ha ?_
    rintro ⟨-, hone, hzero⟩
    rcases hnot with hnot | hnot
    · exact hnot hzero
    · exact hnot hone

/-- A program opens external memory and, after a second, prepares to latch. -/
def prepared : List Action :=
  [.write 0x0000 0x0a, .pass cyclesPerSecond, .write 0x6000 0x00]

/-- It latches two seconds later, writes to external memory, and after five more seconds writes
another one to the latch before it selects the seconds. -/
def latchedOnce : List Action :=
  [.pass (2 * cyclesPerSecond), .write 0x7fff 0x01, .write 0x4000 0x02, .write 0xa000 0x55,
    .pass (5 * cyclesPerSecond), .write 0x6000 0x01, .write 0x4000 0x08]

/-- It reads three seconds. -/
theorem reads_latched_once :
    ∃ c, load (headerImage 0x10 0x00 0x02) = .ok c ∧ c.controller.kind = .mbc3 ∧
      SetsNone (Action.history prepared) latchedOnce ∧
      (performAll c (prepared ++ latchedOnce)).read 0xa000 = 0x03 := by
  have hrom : Header.romSize? 0x00 = some (2 * Header.romBankSize) := rfl
  have hram : Header.ramSize? 0x02 = some (8 * 1024) := rfl
  obtain ⟨c, hload, hkind, clock, hclock, hsecond⟩ : ∃ c,
      load (headerImage 0x10 0x00 0x02) = .ok c ∧ c.controller.kind = .mbc3 ∧
      ∃ t, (performAll c (prepared ++ [.pass (2 * cyclesPerSecond)])).controller.clock? = some t ∧
        t.read .second = 0x03 :=
    ⟨_, load_headerImage hrom hram rfl, rfl, _, rfl, rfl⟩
  have hunset : SetsNone (Action.history prepared) latchedOnce := by decide +kernel
  have hlast : LastLatch (Action.history prepared) latchedOnce [.pass (2 * cyclesPerSecond)] :=
    ⟨0x7fff, 0x01, _, rfl, by decide +kernel, by decide +kernel⟩
  obtain ⟨-, hreads, -⟩ := reads_latched hload hkind prepared latchedOnce hunset
  obtain ⟨t, ht, -, hread⟩ := hreads _ hlast
  obtain rfl : clock = t := Option.some.inj (hclock.symm.trans ht)
  refine ⟨c, hload, hkind, hunset, ?_⟩
  rw [hread 0xa000 .second (by decide +kernel), hsecond]

end Cartridge

end GameBoy
