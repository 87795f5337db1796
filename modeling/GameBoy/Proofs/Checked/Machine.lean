import GameBoy.Proofs.Checked.Cpu
import GameBoy.Proofs.Checked.Time
import GameBoy.Proofs.Machine.Counts

/-!
# The machine never stops

The machine counts the time of a picture in words of 32 bits, and all time in words of 64 bits. As
long as the latter hold the cycles of a run, nothing in the run stops it.

* `Machine.checkedTick_eq`, `Machine.checkedRunFrame_eq`: ticks, and the loop over them.
* `Machine.never_stops`: every request that may be made, in every order.
-/

namespace GameBoy

open Checked

namespace Board

/-- The processor reaches the board by accesses that may stop. -/
instance : CheckedBus Board where
  checkedRead := checkedRead
  checkedWrite := checkedWrite

/-- None of them does. -/
theorem safe_valid : CheckedBus.Safe Valid where
  read _ a h := checkedRead_eq h a
  write _ a v h := checkedWrite_eq h a v
  keeps _ a v h := h.write a v

/-! ## Buttons and saved bytes -/

def checkedPress (b : Board) (key : Button) : Option Board := do
  let (buttons, raised) ← b.buttons.checkedPress key
  let requests ← b.requests.checkedRaiseIf .buttons raised
  return { b with buttons, requests }

def checkedRelease (b : Board) (key : Button) : Option Board := do
  let buttons ← b.buttons.checkedRelease key
  return { b with buttons }

theorem checkedPress_eq (b : Board) (key : Button) : b.checkedPress key = some (b.press key) := by
  simp only [checkedPress, Buttons.checkedPress_eq, Requests.checkedRaiseIf_eq,
    Option.bind_eq_bind, Option.bind_some]
  rfl

theorem checkedRelease_eq (b : Board) (key : Button) :
    b.checkedRelease key = some (b.release key) := by
  rw [checkedRelease, Buttons.checkedRelease_eq]
  rfl

end Board

/-- Both slices that are as long as the shorter memory have to be inside. -/
def Cartridge.checkedLoadRam (c : Cartridge) (saved : ByteArray) : Option Cartridge := do
  let n := min c.ram.size saved.size
  ensure (n ≤ c.ram.size)
  ensure (n ≤ saved.size)
  return c.loadRam saved

theorem Cartridge.checkedLoadRam_eq (c : Cartridge) (saved : ByteArray) :
    c.checkedLoadRam saved = some (c.loadRam saved) := by
  simp only [checkedLoadRam, ensure_of (Nat.min_le_left ..), ensure_of (Nat.min_le_right ..),
    Option.bind_eq_bind, Option.bind_some]
  rfl

/-! ## The watcher -/

/-- Events are counted in words of 64 bits. -/
def Tally.checkedCount (t : Tally) (e : Event) : Option Tally := do
  match e with
  | .instruction .. =>
    let instructions ← add 64 t.instructions 1
    return { t with instructions }
  | .interrupt _ =>
    let interrupts ← add 64 t.interrupts 1
    return { t with interrupts }
  | .frame =>
    let frames ← add 64 t.frames 1
    return { t with frames }

/-- The count of an event has room for one more. -/
def Tally.Fits (t : Tally) : Event → Prop
  | .instruction .. => t.instructions + 1 < 2 ^ 64
  | .interrupt _ => t.interrupts + 1 < 2 ^ 64
  | .frame => t.frames + 1 < 2 ^ 64

theorem Tally.checkedCount_eq {t : Tally} {e : Event} (h : t.Fits e) :
    t.checkedCount e = some (t.count e) := by
  cases e with
  | instruction =>
    have hinstructions : t.instructions + 1 < 2 ^ 64 := h
    simp only [checkedCount, add_of_lt hinstructions]
    rfl
  | interrupt =>
    have hinterrupts : t.interrupts + 1 < 2 ^ 64 := h
    simp only [checkedCount, add_of_lt hinterrupts]
    rfl
  | frame =>
    have hframes : t.frames + 1 < 2 ^ 64 := h
    simp only [checkedCount, add_of_lt hframes]
    rfl

namespace Machine

/-! ## Ticks -/

/-- The watcher is told something, if there is something, and counts it. -/
def checkedTell? (m : Machine) (e? : Option Event) : Option Machine := do
  match e? with
  | none => return m
  | some e =>
    let tally ← m.watcher.tally.checkedCount e
    let m := m.tell e
    return { m with watcher := { m.watcher with tally } }

/-- A step of the processor, of which the watcher is told. -/
def checkedAct (m : Machine) : Option (Outcome × Machine) := do
  let address := m.cpu.regs.pc
  let opcode ← m.board.checkedRead address
  let stepped ← m.cpu.checkedStep m.board
  let board := stepped.bus.report (stepped.outcome.report? address)
  let told ← checkedTell? { m with cpu := stepped.cpu, board }
    (eventOf stepped.outcome address opcode)
  return (stepped.outcome, told)

/-- Time passes on the board. -/
def checkedPass (m : Machine) (frames : Nat) (cycles : Nat) : Option (Nat × Machine) := do
  let (passed, board) ← m.board.checkedAdvance cycles
  let total ← add 64 m.cycles passed
  let m := { m with board, cycles := total }
  let told ← m.checkedTell? (if m.board.video.frames = frames then none else some .frame)
  return (passed, told)

/-- One step and the time it takes. -/
def checkedTick (m : Machine) : Option (Nat × Machine) := do
  let frames := m.board.video.frames
  let (outcome, acted) ← m.checkedAct
  let cycles ← mul 32 (machineCycles outcome) cyclesPerMachineCycle
  acted.checkedPass frames cycles

theorem checkedTell?_eq {m : Machine} {e? : Option Event}
    (h : ∀ e, e? = some e → m.watcher.tally.Fits e) : m.checkedTell? e? = some (m.tell? e?) := by
  cases e? with
  | none => rfl
  | some e =>
    simp only [checkedTell?, Tally.checkedCount_eq (h e rfl)]
    rfl

/-- An act can be counted if there is room for one more of either kind. -/
theorem fits_eventOf {t : Tally} (h : t.acts + 1 < 2 ^ 64) (o : Outcome) (a : UInt16) (op : UInt8) :
    ∀ e, eventOf o a op = some e → t.Fits e := by
  simp only [Tally.acts] at h
  intro e he
  cases o with
  | served i =>
    cases he
    show t.interrupts + 1 < 2 ^ 64
    omega
  | executed i n =>
    cases he
    show t.instructions + 1 < 2 ^ 64
    omega
  | idle => cases he

theorem checkedAct_eq {m : Machine} (h : m.board.Valid)
    (hacts : m.watcher.tally.acts + 1 < 2 ^ 64) : m.checkedAct = some m.act := by
  have htold : ∀ cpu board o a op, checkedTell? { m with cpu, board } (eventOf o a op) =
      some (tell? { m with cpu, board } (eventOf o a op)) :=
    fun cpu board o a op => checkedTell?_eq (fits_eventOf hacts o a op)
  unfold checkedAct
  simp only [Board.checkedRead_eq h, Cpu.checkedStep_eq Board.safe_valid h, htold,
    Option.bind_eq_bind, Option.bind_some]
  rfl

/-- Time passes if the machine afterwards can be counted. -/
theorem checkedPass_eq {m : Machine} (h : m.board.Valid) {frames n : Nat} (hn : n < 2 ^ 31)
    (htally : m.watcher.tally.frames ≤ frames) (hbefore : frames ≤ m.board.video.frames)
    (hcycles : m.cycles + (m.board.advance n).1 < 2 ^ 64)
    (hframes : (m.board.advance n).2.video.frames < 2 ^ 64) :
    m.checkedPass frames n = some (m.pass frames n) := by
  have hmonotone := (h.frames_advance n).1
  have hfits : ∀ e, (if (m.board.advance n).2.video.frames = frames then none else some .frame) =
      some e → m.watcher.tally.Fits e := by
    intro e he
    split at he
    · cases he
    · cases he
      show m.watcher.tally.frames + 1 < 2 ^ 64
      omega
  have htold := checkedTell?_eq (m := { m with
    board := (m.board.advance n).2, cycles := m.cycles + (m.board.advance n).1 }) hfits
  unfold checkedPass
  simp only [Board.checkedAdvance_eq h hn hframes, add_of_lt hcycles, htold, Option.bind_eq_bind,
    Option.bind_some]
  rfl

/-- A tick does not stop if the cycles after it can be counted. -/
theorem checkedTick_eq {m : Machine} (h : m.Counted) (hcycles : m.tick.2.cycles < 2 ^ 64) :
    m.checkedTick = some m.tick := by
  have hframes := Nat.lt_of_le_of_lt h.tick.frames_le_cycles hcycles
  have hfour := four_le_tick m
  have hacts := h.acts_le
  rw [tick_cycles] at hcycles
  rw [tick_frames] at hframes
  have hact := checkedAct_eq h.board.valid (by omega)
  obtain ⟨n, hn⟩ : ∃ n, n = machineCycles m.act.1 * cyclesPerMachineCycle := ⟨_, rfl⟩
  have hle : n ≤ 24 := by
    rw [hn]
    exact Nat.mul_le_mul_right 4 m.machineCycles_act_le
  have hmul : machineCycles m.act.1 * cyclesPerMachineCycle < 2 ^ 32 := by
    rw [← hn]
    omega
  rw [← hn] at hframes
  have hpass := checkedPass_eq (m := m.act.2) (n := n) (reachable_act h.board).valid (by omega)
    (by rw [m.act_tally.2]; exact h.frames_le) (Nat.le_of_eq m.act_frames.1.symm)
    (by rw [act_cycles, hn]; exact hcycles) hframes
  unfold checkedTick
  simp only [hact, mul_of_lt hmul, Option.bind_eq_bind, Option.bind_some, ← hn, hpass]
  rw [hn]
  rfl

/-! ## Pictures -/

/-- Ticks until a picture is complete or as much time as `limit` has passed. A loop that goes round
more often than `fuel` says does not end. -/
def checkedRunUntil (limit : Nat) : Nat → Machine → Nat → Option (Bool × Machine)
  | 0, m, elapsed => if limit ≤ elapsed then some (false, m) else none
  | fuel + 1, m, elapsed => do
    if limit ≤ elapsed then return (false, m)
    let (passed, m) ← m.checkedTick
    let elapsed ← add 32 elapsed passed
    if m.frameReady then return (true, m)
    checkedRunUntil limit fuel m elapsed

/-- Ticks until a picture is complete, but not longer than a picture takes. -/
def checkedRunFrame (m : Machine) : Option (Bool × Machine) := do
  let limit ← mul 32 dotsPerFrame m.board.speed.rate.factor
  checkedRunUntil limit limit m 0

theorem runFor_zero (m : Machine) : m.runFor 0 = (false, m) := by
  rw [runFor, if_pos rfl]

/-- The loop goes round at most once for each cycle, and the time it adds up stays small. -/
theorem checkedRunUntil_eq {limit : Nat} (hlimit : limit < 2 ^ 31) (fuel : Nat) {m : Machine}
    (h : m.Counted) {elapsed : Nat} (hfuel : limit ≤ elapsed + fuel)
    (hcycles : (m.runFor (limit - elapsed)).2.cycles < 2 ^ 64) :
    checkedRunUntil limit fuel m elapsed = some (m.runFor (limit - elapsed)) := by
  induction fuel generalizing m elapsed with
  | zero =>
    have hpast : limit ≤ elapsed := hfuel
    rw [checkedRunUntil, if_pos hpast, Nat.sub_eq_zero_of_le hpast, runFor_zero]
  | succ fuel ih =>
    unfold checkedRunUntil
    split
    · rename_i hpast
      rw [Nat.sub_eq_zero_of_le hpast, runFor_zero]
      rfl
    · rename_i hleft
      obtain ⟨hpos, -, hle, -⟩ := tick_bounds h.board
      have hgoes : ¬ limit - elapsed = 0 := by omega
      have hadd : elapsed + m.tick.1 < 2 ^ 32 := by omega
      have hrest : limit - elapsed - m.tick.1 = limit - (elapsed + m.tick.1) := by omega
      rw [runFor, if_neg hgoes] at hcycles ⊢
      simp only [hrest] at hcycles ⊢
      have hticked : m.tick.2.cycles < 2 ^ 64 := by
        split at hcycles
        · exact hcycles
        · exact Nat.lt_of_le_of_lt (m.tick.2.cycles_le_runFor _) hcycles
      simp only [checkedTick_eq h hticked, add_of_lt hadd, Option.bind_eq_bind, Option.bind_some]
      split
      · rfl
      · rename_i hready
        rw [if_neg hready] at hcycles
        exact ih h.tick (by omega) hcycles

/-- A picture's time does not stop the machine. -/
theorem checkedRunFrame_eq {m : Machine} (h : m.Counted) (hcycles : m.runFrame.2.cycles < 2 ^ 64) :
    m.checkedRunFrame = some m.runFrame := by
  have hlimit : dotsPerFrame * m.board.speed.rate.factor < 2 ^ 31 := by
    cases m.board.speed.rate <;> decide
  have hmul : dotsPerFrame * m.board.speed.rate.factor < 2 ^ 32 :=
    Nat.lt_trans hlimit (by decide)
  unfold checkedRunFrame runFrame
  rw [mul_of_lt hmul]
  exact checkedRunUntil_eq hlimit _ h (Nat.le_add_left ..) hcycles

/-! ## Requests -/

/-- The machine after a request. -/
def checkedPerform (m : Machine) (r : Request) : Option Machine := do
  match r with
  | .tick =>
    let (_, m) ← m.checkedTick
    return m
  | .runFrame =>
    let (_, m) ← m.checkedRunFrame
    return m
  | .write a v =>
    let board ← m.board.checkedWrite a v
    return { m with board }
  | .read a =>
    let _ ← m.board.checkedRead a
    return m
  | .press i =>
    match Button.ofIndex? i with
    | some key =>
      let board ← m.board.checkedPress key
      return { m with board }
    | none => return m.press i
  | .release i =>
    match Button.ofIndex? i with
    | some key =>
      let board ← m.board.checkedRelease key
      return { m with board }
    | none => return m.release i
  | .takeFrame => return m.takeFrame.2
  | .loadRam saved =>
    let cartridge ← m.board.cartridge.checkedLoadRam saved
    return { m with board := { m.board with cartridge } }

/-- The machine after some requests, one after the other. -/
def checkedPerformAll (m : Machine) (rs : List Request) : Option Machine :=
  rs.foldlM checkedPerform m

theorem checkedPerform_eq {m : Machine} (h : m.Counted) {r : Request}
    (hcycles : (m.perform r).cycles < 2 ^ 64) : m.checkedPerform r = some (m.perform r) := by
  cases r with
  | tick =>
    simp only [checkedPerform, checkedTick_eq h hcycles]
    rfl
  | runFrame =>
    simp only [checkedPerform, checkedRunFrame_eq h hcycles]
    rfl
  | write a v =>
    simp only [checkedPerform, Board.checkedWrite_eq h.board.valid]
    rfl
  | read a =>
    simp only [checkedPerform, Board.checkedRead_eq h.board.valid]
    rfl
  | press i =>
    simp only [checkedPerform, Board.checkedPress_eq, perform, press]
    cases Button.ofIndex? i <;> rfl
  | release i =>
    simp only [checkedPerform, Board.checkedRelease_eq, perform, release]
    cases Button.ofIndex? i <;> rfl
  | takeFrame => rfl
  | loadRam saved =>
    simp only [checkedPerform, Cartridge.checkedLoadRam_eq]
    rfl

theorem Counted.checkedPerformAll_eq {m : Machine} (h : m.Counted) (rs : List Request)
    (hcycles : (performAll m rs).cycles < 2 ^ 64) :
    m.checkedPerformAll rs = some (performAll m rs) := by
  induction rs generalizing m with
  | nil => rfl
  | cons r rs ih =>
    have hnext := Nat.lt_of_le_of_lt ((m.perform r).cycles_le_performAll rs) hcycles
    rw [checkedPerformAll, List.foldlM_cons, checkedPerform_eq h hnext]
    exact ih (h.perform r) hcycles

/-- No sequence of requests stops a machine that was powered up, with any cartridge and as any
model: no access misses its memory, no device is reached by a foreign address, and no word
overflows, as long as 64 bits hold the cycles. -/
theorem never_stops {image : ByteArray} {options : Options} {journal : Journal} {start : Machine}
    (h : powerUp image options journal = .ok start) (rs : List Request)
    (hcycles : (performAll start rs).cycles < 2 ^ 64) :
    start.checkedPerformAll rs = some (performAll start rs) :=
  (counted_powerUp h).checkedPerformAll_eq rs hcycles

/-- A page is copied, a button goes down, and a tick passes. -/
theorem never_stops_zeroImage :
    ∃ m, powerUp Cartridge.zeroImage { model? := some .cgb } {} = .ok m ∧
      let rs := [Request.write 0xff46 0xc0, .press 0, .tick, .read 0xfe00]
      (performAll m rs).cycles < 2 ^ 64 ∧ m.checkedPerformAll rs = some (performAll m rs) := by
  obtain ⟨m, hm⟩ := powerUp_zeroImage
  obtain ⟨hfirst, hstart, -⟩ := powerUp_start hm
  have hboard := reachable_perform (reachable_perform hfirst (.write 0xff46 0xc0)) (.press 0)
  obtain ⟨-, -, hle, -⟩ := tick_bounds hboard
  have hcycles : (performAll m [.write 0xff46 0xc0, .press 0, .tick, .read 0xfe00]).cycles <
      2 ^ 64 := by
    show (((m.perform (.write 0xff46 0xc0)).perform (.press 0)).tick.2).cycles < 2 ^ 64
    rw [tick_cycles]
    have hpress : ((m.perform (.write 0xff46 0xc0)).perform (.press 0)).cycles = m.cycles :=
      (cycles_press _ 0).trans (m.cycles_write 0xff46 0xc0)
    omega
  exact ⟨m, hm, hcycles, never_stops hm _ hcycles⟩

end Machine

end GameBoy
