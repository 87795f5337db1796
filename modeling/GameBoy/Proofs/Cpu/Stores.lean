import GameBoy.Memory.Flat
import GameBoy.Proofs.Cpu.Encoding
import GameBoy.Proofs.Cpu.Writes

/-!
# Which writes a step makes

A write can switch a bank, start a copy or reset a counter, so it matters not only what memory holds
after a step but which writes were made, and in what order. Each kind of step has its own list of
writes, and makes these and no others.

* `Instr.stores`, `Outcome.stores`: the writes of an instruction and of a step.
* `Instr.writes_operate`, `Instr.bus_operate`: an instruction makes the writes of its list, and does
  nothing else to the bus.
* `Cpu.writes_law`: so does every step, on any bus; and how long it takes tells whether its opcode
  has a meaning.
-/

namespace GameBoy

variable {β : Type} [Bus β]

/-! ## The lists -/

/-- The writes that push a word: the high byte first, below it the low byte. -/
def Registers.pushes (r : Registers) (v : UInt16) : List (UInt16 × UInt8) :=
  [(r.sp - 1, highByte v), (r.sp - 2, lowByte v)]

/-- The writes that put a byte where an operand is. -/
def Operand.stores (x : Operand) (v : UInt8) (r : Registers) : List (UInt16 × UInt8) :=
  match x with
  | .reg _ => []
  | .atHL => [(r.hl, v)]

/-- The writes of an instruction, the first one first, with the address of the next instruction in
`pc`. -/
def Instr.stores (i : Instr) (r : Registers) (bus : β) : List (UInt16 × UInt8) :=
  match i with
  | .push p => r.pushes (r.stackPair p)
  | .restart _ => r.pushes r.pc
  | .call c _ => if Condition.met c r.flags then r.pushes r.pc else []
  | .storeSP a => [(a, lowByte r.sp), (a + 1, highByte r.sp)]
  | .storeA p => [(r.pointer p, r.a)]
  | .storeAAt a => [(a, r.a)]
  | .storeAHigh n => [(highAddress n, r.a)]
  | .storeAHighC => [(highAddress r.c, r.a)]
  | .load x y => x.stores (y.load r bus) r
  | .loadByte x v => x.stores v r
  | .inc x => x.stores (x.load r bus + 1) r
  | .dec x => x.stores (x.load r bus - 1) r
  | .shift s x => x.stores (s.value (x.load r bus) r.flags.carry) r
  | .clearBit n x => x.stores (GameBoy.clearBit n (x.load r bus)) r
  | .setBit n x => x.stores (GameBoy.setBit n (x.load r bus)) r
  | _ => []

/-- The writes of a step, the first one first, with the registers and the bus as the step finds
them. -/
def Outcome.stores (o : Outcome) (r : Registers) (bus : β) : List (UInt16 × UInt8) :=
  match o with
  | .idle => []
  | .served i => (0xff0f, Bus.read bus 0xff0f &&& ~~~i.mask) :: r.pushes r.pc
  | .executed i _ => i.stores (r.goto (r.pc + i.length)) bus

/-! ## Instructions -/

theorem Operand.writes_store (x : Operand) (v : UInt8) (r : Registers) (t : Traced β) :
    (x.store v r t).2.writes = t.writes ++ x.stores v r := by
  cases x with
  | reg y => exact (List.append_nil _).symm
  | atHL => rfl

theorem Registers.writes_pushWord (r : Registers) (v : UInt16) (t : Traced β) :
    (r.pushWord v t).2.writes = t.writes ++ r.pushes v :=
  List.append_assoc ..

theorem Registers.writes_callTo (r : Registers) (a : UInt16) (t : Traced β) :
    (r.callTo a t).2.writes = t.writes ++ r.pushes r.pc :=
  r.writes_pushWord r.pc t

/-- An instruction makes the writes of its list. -/
theorem Instr.writes_operate (i : Instr) (r : Registers) (t : Traced β) :
    (i.operate r t).2.writes = t.writes ++ i.stores r t.bus := by
  have hload (x : Operand) : x.load r t.bus = x.load r t := Traced.hom_bus.load t x r
  cases i with
  | load x y => simp only [operate, stores, Operand.writes_store, hload]
  | loadByte x v => exact x.writes_store v r t
  | inc x | dec x | shift _ x | clearBit _ x | setBit _ x =>
    simp only [operate, stores, hload]
    exact x.writes_store _ _ t
  | storeA | storeAAt | storeAHigh | storeAHighC => rfl
  | storeSP a => exact List.append_assoc ..
  | push p => exact r.writes_pushWord _ t
  | restart a => exact r.writes_callTo a t
  | call c a =>
    simp only [operate, stores]
    split
    · exact r.writes_callTo a t
    · exact (List.append_nil _).symm
  | _ => exact (List.append_nil _).symm

theorem Operand.bus_store (x : Operand) (v : UInt8) (r : Registers) (bus : β) :
    (x.store v r bus).2 = Bus.writeAll bus (x.stores v r) := by
  cases x <;> rfl

/-- An instruction reaches the bus in no other way. -/
theorem Instr.bus_operate (i : Instr) (r : Registers) (bus : β) :
    (i.operate r bus).2 = Bus.writeAll bus (i.stores r bus) := by
  cases i with
  | load | loadByte | inc | dec | shift | clearBit | setBit => exact Operand.bus_store ..
  | call c a =>
    simp only [operate, stores]
    split <;> rfl
  | _ => rfl

/-- Memory that holds the same byte everywhere. -/
def Flat.filled (v : UInt8) : Flat := { cells := .fill _ v, armed := false }

@[simp] theorem Flat.read_filled (v : UInt8) (a : UInt16) : Bus.read (Flat.filled v) a = v :=
  Block.getElem_fill v a.toNat (UInt16.toNat_lt a)

namespace Cpu

theorem fetch_filled (v : UInt8) (a : UInt16) : fetch (Flat.filled v) a = .ofBytes v v v := by
  simp only [fetch, Flat.read_filled]

/-! ## Steps -/

/-- A step makes the writes of its list. -/
theorem writes_eq_stores (cpu : Cpu) (bus : β) :
    cpu.writes bus = (cpu.step bus).outcome.stores cpu.regs bus := by
  rw [← cpu.outcome_traced bus, writes]
  rcases step_cases cpu (Traced.mk bus []) with
    ⟨-, -, hstep⟩ | ⟨i, -, -, hstep⟩ | ⟨i, -, -, -, hstep⟩
  · rw [hstep]
    rfl
  · rw [hstep]
    exact Registers.writes_callTo cpu.awake.regs i.vector _
  · rw [hstep]
    -- a stop reaches the bus, but not by a write
    cases i with
    | stop => rfl
    | _ => exact Instr.writes_operate _ _ _

/-- The bus after a step is the one that its writes leave; only a stop does not write, but asks for
the other clock rate. -/
theorem bus_eq_writeAll (cpu : Cpu) (bus : β) :
    (¬ (cpu.step bus).outcome.Executed .stop ∧
      (cpu.step bus).bus = Bus.writeAll bus (cpu.writes bus)) ∨
    ((cpu.step bus).outcome.Executed .stop ∧ (cpu.step bus).bus = (Bus.switchRate bus).2) := by
  rw [writes_eq_stores]
  rcases step_cases cpu bus with ⟨-, -, hstep⟩ | ⟨i, -, -, hstep⟩ | ⟨i, -, -, -, hstep⟩
  · rw [hstep]
    exact .inl ⟨fun ⟨_, hop⟩ => Outcome.noConfusion hop, rfl⟩
  · rw [hstep]
    exact .inl ⟨fun ⟨_, hop⟩ => Outcome.noConfusion hop, rfl⟩
  · rw [hstep]
    cases i with
    | stop => exact .inr ⟨⟨_, rfl⟩, rfl⟩
    | _ =>
      refine .inl ⟨fun ⟨_, hop⟩ => ?_, Instr.bus_operate ..⟩
      exact Instr.noConfusion (Outcome.executed.inj hop).1

/-- An opcode without a meaning is stepped over and changes no register. -/
theorem regs_of_illegal {cpu : Cpu} {bus : β} {op : UInt8}
    (h : (cpu.step bus).outcome.Executed (.illegal op)) :
    (cpu.step bus).cpu.regs = { cpu.regs with pc := cpu.regs.pc + 1 } :=
  regs_of_executed h

/-- A step that is not idle takes no time if its opcode has no meaning, and some time if it has. -/
theorem cycles_pos_iff {cpu : Cpu} {bus : β} (h : (cpu.step bus).outcome ≠ .idle) :
    0 < (cpu.step bus).outcome.cycles ↔ ¬ ∃ op, (cpu.step bus).outcome.Executed (.illegal op) := by
  rcases step_cases cpu bus with ⟨-, -, hstep⟩ | ⟨i, -, -, hstep⟩ | ⟨i, -, -, -, hstep⟩
  · exact absurd (by rw [hstep]) h
  · rw [hstep]
    exact ⟨fun _ ⟨_, _, hop⟩ => (nomatch hop), fun _ => Nat.succ_pos 4⟩
  · rw [hstep]
    constructor
    · rintro hpos ⟨op, n, hop⟩
      obtain ⟨rfl, -⟩ := Outcome.executed.inj hop
      exact absurd hpos (Nat.lt_irrefl 0)
    · intro hnot
      refine i.cycles_pos _ ?_
      rintro op rfl
      exact hnot ⟨op, _, rfl⟩

/-- What every step does to any bus. It makes the writes of its list, which follows from what kind
of step it is and, for an instruction, from the bytes at `pc`. They are all that it does to the bus,
except that a stop asks for the other clock rate. An opcode without a meaning is stepped over, and
only such a step takes no time. -/
theorem writes_law (cpu : Cpu) (bus : β) :
    cpu.writes bus = (cpu.step bus).outcome.stores cpu.regs bus ∧
      ((¬ (cpu.step bus).outcome.Executed .stop ∧
          (cpu.step bus).bus = Bus.writeAll bus (cpu.writes bus)) ∨
        ((cpu.step bus).outcome.Executed .stop ∧
          (cpu.step bus).bus = (Bus.switchRate bus).2)) ∧
      (∀ i, (cpu.step bus).outcome.Executed i →
        i.Encoded (Bus.read bus cpu.regs.pc) (Bus.read bus (cpu.regs.pc + 1))
          (Bus.read bus (cpu.regs.pc + 2))) ∧
      (∀ op, (cpu.step bus).outcome.Executed (.illegal op) →
        (cpu.step bus).cpu.regs = { cpu.regs with pc := cpu.regs.pc + 1 }) ∧
      ((cpu.step bus).outcome ≠ .idle →
        (cpu.step bus).outcome.cycles ≤ 6 ∧
          ((cpu.step bus).outcome.cycles = 0 ↔
            ∃ op, (cpu.step bus).outcome.Executed (.illegal op))) := by
  refine ⟨cpu.writes_eq_stores bus, cpu.bus_eq_writeAll bus, fun _ => encoded_of_executed,
    fun _ => regs_of_illegal, fun h => ⟨cpu.cycles_step_le bus, ?_⟩⟩
  rw [← not_iff_not, ← cycles_pos_iff h, Nat.pos_iff_ne_zero]

/-- In memory full of the opcode that increases the byte at `HL`, a step does that and writes
nothing else. -/
theorem writes_law_increment :
    let cpu : Cpu := { regs := .powerUp .dmg }
    cpu.writes (Flat.filled 0x34) = [(0x014d, 0x35)] ∧
      (cpu.step (Flat.filled 0x34)).outcome.cycles = 3 := by
  intro cpu
  have houtcome : (cpu.step (Flat.filled 0x34)).outcome = .executed (.inc .atHL) 3 := by
    rw [step_executed (.inl rfl) (fun h => Bool.false_ne_true h.1) (fetch_filled 0x34 _)]
    rfl
  obtain ⟨hwrites, -⟩ := cpu.writes_law (Flat.filled 0x34)
  rw [hwrites, houtcome]
  refine ⟨?_, rfl⟩
  simp only [Outcome.stores, Instr.stores, Operand.stores, Operand.load, Flat.read_filled]
  decide

end Cpu

end GameBoy
