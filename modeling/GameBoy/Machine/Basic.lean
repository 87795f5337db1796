import GameBoy.Board.Time
import GameBoy.Cartridge.Load
import GameBoy.Machine.Event

/-!
# The machine

A processor on a board. Each tick is a step of the processor, after which the time it took passes
for everything else. An opcode without a meaning, and waiting while halted, take one machine cycle,
so time always passes.

* `Machine.powerUp`: a machine with a cartridge.
* `Machine.tick`: a step, and the clock cycles that passed.
* `Machine.runFrame`: ticks until a picture is complete or the time for one has passed.
-/

namespace GameBoy

/-- A machine. -/
structure Machine where
  cpu : Cpu
  board : Board
  /-- Clock cycles since power-up. -/
  cycles : Nat := 0
  watcher : Watcher := {}

namespace Machine

/-- What may be chosen when a machine is built. -/
structure Options where
  /-- The model; the cartridge's header decides if none is chosen. -/
  model? : Option Model := none
  /-- Whether the header's checksum and logo are looked at. -/
  verify : Bool := true

/-- A machine with the cartridge that an image describes. Notices continue a journal. -/
def powerUp (image : ByteArray) (options : Options) (journal : Journal) :
    Except LoadError Machine := do
  let cartridge ← Cartridge.load image
  let model := options.model?.getD cartridge.model
  let journal := (journal.addAll (cartridge.loadNotices options.verify)).add (.modelChosen model)
  return { cpu := .powerUp model, board := .powerUp cartridge model journal }

/-- The model the machine was built as. -/
def model (m : Machine) : Model := m.board.model

/-! ## Ticks -/

/-- Clock cycles in a machine cycle. -/
abbrev cyclesPerMachineCycle : Nat := 4

/-- The watcher is told something, and it may be noted. -/
def tell (m : Machine) (e : Event) : Machine :=
  { m with watcher := m.watcher.see e, board := m.board.report e.notice? }

/-- What a step from an address with the given opcode is to a watcher. -/
def eventOf (o : Outcome) (address : UInt16) (opcode : UInt8) : Option Event :=
  match o with
  | .served i => some (.interrupt i.vector)
  | .executed .. => some (.instruction address opcode)
  | .idle => none

/-- The watcher is told something, if there is something. -/
def tell? (m : Machine) (e? : Option Event) : Machine :=
  match e? with
  | none => m
  | some e => m.tell e

/-- The machine cycles that a step takes, at least one. -/
def machineCycles (o : Outcome) : Nat := max o.cycles 1

/-- A step of the processor, of which the watcher is told: what it was, and the machine afterwards,
before time passes. -/
def act (m : Machine) : Outcome × Machine :=
  let address := m.cpu.regs.pc
  let opcode := m.board.read address
  let stepped := m.cpu.step m.board
  let board := stepped.bus.report (stepped.outcome.report? address)
  (stepped.outcome,
    tell? { m with cpu := stepped.cpu, board } (eventOf stepped.outcome address opcode))

/-- Time passes on the board: how much, and the machine afterwards. The watcher is told of a
completed picture. -/
def pass (m : Machine) (frames : Nat) (cycles : Nat) : Nat × Machine :=
  let passed := m.board.advance cycles
  let m := { m with board := passed.2, cycles := m.cycles + passed.1 }
  (passed.1, m.tell? (if m.board.video.frames = frames then none else some .frame))

/-- One step and the time it takes: the clock cycles that passed, and the machine afterwards. -/
def tick (m : Machine) : Nat × Machine :=
  let frames := m.board.video.frames
  let acted := m.act
  acted.2.pass frames (machineCycles acted.1 * cyclesPerMachineCycle)

/-- At least one machine cycle passes. -/
theorem four_le_tick (m : Machine) : 4 ≤ m.tick.1 := by
  refine Nat.le_trans ?_ (Board.le_advance ..)
  have : 1 ≤ machineCycles m.act.1 := Nat.le_max_right ..
  simp only [cyclesPerMachineCycle]
  omega

/-! ## Pictures -/

/-- Whether a picture is complete and has not been taken. -/
def frameReady (m : Machine) : Bool := m.board.video.frameReady

/-- Takes the complete picture: whether it is new since the last time. -/
def takeFrame (m : Machine) : Bool × Machine :=
  let taken := m.board.video.takeFrame
  (taken.1, { m with board := { m.board with video := taken.2 } })

/-- The last complete picture. -/
def picture (m : Machine) : Picture := m.board.video.front

/-- Ticks until a picture is complete or `time` has passed: which of the two it was. -/
def runFor (m : Machine) (time : Nat) : Bool × Machine :=
  if time = 0 then (false, m)
  else
    let ticked := m.tick
    if ticked.2.frameReady then (true, ticked.2)
    else ticked.2.runFor (time - ticked.1)
termination_by time
decreasing_by
  have := four_le_tick m
  omega

/-- Ticks until a picture is complete, but not longer than a picture takes at the clock rate in
force; while the display is off none is completed. The flag says whether one is complete. -/
def runFrame (m : Machine) : Bool × Machine :=
  m.runFor (dotsPerFrame * m.board.speed.rate.factor)

/-! ## What one does to a machine -/

/-- Button `i` goes down; numbers above seven are reported and nothing more. -/
def press (m : Machine) (i : UInt8) : Machine :=
  match Button.ofIndex? i with
  | some key => { m with board := m.board.press key }
  | none => { m with board := m.board.report (some (.unknownButton i)) }

/-- Button `i` goes up; numbers above seven are reported and nothing more. -/
def release (m : Machine) (i : UInt8) : Machine :=
  match Button.ofIndex? i with
  | some key => { m with board := m.board.release key }
  | none => { m with board := m.board.report (some (.unknownButton i)) }

/-- What a program reads at an address. -/
def read (m : Machine) (a : UInt16) : UInt8 := m.board.read a

/-- Writes to an address as a program does. -/
def write (m : Machine) (a : UInt16) (v : UInt8) : Machine := { m with board := m.board.write a v }

/-- What was reported so far. -/
def notices (m : Machine) : List Notice := m.board.journal.notices

/-- Forgets what was reported so far. -/
def clearNotices (m : Machine) : Machine :=
  { m with board := { m.board with journal := m.board.journal.clear } }

/-- Replaces the beginning of external memory by saved bytes. -/
def loadRam (m : Machine) (saved : ByteArray) : Machine :=
  { m with board := { m.board with cartridge := m.board.cartridge.loadRam saved } }

end Machine

end GameBoy
