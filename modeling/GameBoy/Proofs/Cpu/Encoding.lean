import GameBoy.Proofs.Cpu.Enabling

/-!
# The opcode table

Which bytes stand for which instruction: every operand has a number, and an opcode is the first one
of its family with the numbers of its operands added in their places. The table goes from the
instructions to the bytes and knows nothing of the fields that the processor takes an opcode apart
into.

* `Instr.Encoded`: the table.
* `Instr.ofBytes_eq_iff`: the processor decodes all bytes as the table says.
* `Cpu.IsAt`, `Cpu.isAt_iff`: what a step executes is encoded where `pc` points.
-/

namespace GameBoy

/-! ## The numbers of the operands -/

/-- The number of a byte operand. -/
def Operand.code : Operand → Nat
  | .reg .b => 0
  | .reg .c => 1
  | .reg .d => 2
  | .reg .e => 3
  | .reg .h => 4
  | .reg .l => 5
  | .atHL => 6
  | .reg .a => 7

/-- The number of a pair of registers. -/
def Pair.code : Pair → Nat
  | .bc => 0
  | .de => 1
  | .hl => 2
  | .sp => 3

/-- The number of a pair that is pushed or popped. -/
def StackPair.code : StackPair → Nat
  | .bc => 0
  | .de => 1
  | .hl => 2
  | .af => 3

/-- The number of a pointer. -/
def Pointer.code : Pointer → Nat
  | .bc => 0
  | .de => 1
  | .hlUp => 2
  | .hlDown => 3

/-- The number of a condition. -/
def Condition.code : Condition → Nat
  | .notZero => 0
  | .zero => 1
  | .notCarry => 2
  | .carry => 3

/-- The number of an operation on `A`. -/
def Alu.code : Alu → Nat
  | .add => 0
  | .adc => 1
  | .sub => 2
  | .sbc => 3
  | .and => 4
  | .xor => 5
  | .or => 6
  | .cp => 7

/-- The number of a shift. -/
def Shift.code : Shift → Nat
  | .rlc => 0
  | .rrc => 1
  | .rl => 2
  | .rr => 3
  | .sla => 4
  | .sra => 5
  | .swap => 6
  | .srl => 7

theorem Operand.code_lt (x : Operand) : x.code < 8 := by
  cases x with
  | reg r => cases r <;> decide
  | atHL => decide

/-! ## The table -/

/-- The opcodes without a meaning. -/
def illegalOpcodes : List Nat :=
  [0xd3, 0xdb, 0xdd, 0xe3, 0xe4, 0xeb, 0xec, 0xed, 0xf4, 0xfc, 0xfd]

/-- The three bytes begin with the instruction: an opcode with the operand that follows it, or the
byte `0xcb` with an opcode of the second page. -/
def Instr.Encoded (i : Instr) (op b1 b2 : UInt8) : Prop :=
  match i with
  | .nop => op.toNat = 0x00
  | .stop => op.toNat = 0x10
  | .halt => op.toNat = 0x76
  | .disableInterrupts => op.toNat = 0xf3
  | .enableInterrupts => op.toNat = 0xfb
  | .load x y => op.toNat = 0x40 + 8 * x.code + y.code ∧ ¬ (x = .atHL ∧ y = .atHL)
  | .loadByte x v => op.toNat = 0x06 + 8 * x.code ∧ v = b1
  | .loadWord p v => op.toNat = 0x01 + 16 * p.code ∧ v = word b2 b1
  | .loadA p => op.toNat = 0x0a + 16 * p.code
  | .storeA p => op.toNat = 0x02 + 16 * p.code
  | .loadAFrom a => op.toNat = 0xfa ∧ a = word b2 b1
  | .storeAAt a => op.toNat = 0xea ∧ a = word b2 b1
  | .loadAHigh n => op.toNat = 0xf0 ∧ n = b1
  | .storeAHigh n => op.toNat = 0xe0 ∧ n = b1
  | .loadAHighC => op.toNat = 0xf2
  | .storeAHighC => op.toNat = 0xe2
  | .storeSP a => op.toNat = 0x08 ∧ a = word b2 b1
  | .loadSPHL => op.toNat = 0xf9
  | .loadHLSP e => op.toNat = 0xf8 ∧ e = b1
  | .addSP e => op.toNat = 0xe8 ∧ e = b1
  | .addHL p => op.toNat = 0x09 + 16 * p.code
  | .inc x => op.toNat = 0x04 + 8 * x.code
  | .dec x => op.toNat = 0x05 + 8 * x.code
  | .incPair p => op.toNat = 0x03 + 16 * p.code
  | .decPair p => op.toNat = 0x0b + 16 * p.code
  | .alu o x => op.toNat = 0x80 + 8 * o.code + x.code
  | .aluByte o v => op.toNat = 0xc6 + 8 * o.code ∧ v = b1
  | .rotateA s => op.toNat = 0x07 + 8 * s.code ∧ s.code < 4
  | .decimalAdjustA => op.toNat = 0x27
  | .complementA => op.toNat = 0x2f
  | .setCarry => op.toNat = 0x37
  | .complementCarry => op.toNat = 0x3f
  | .shift s x => op.toNat = 0xcb ∧ b1.toNat = 8 * s.code + x.code
  | .testBit n x => op.toNat = 0xcb ∧ b1.toNat = 0x40 + 8 * n.val + x.code
  | .clearBit n x => op.toNat = 0xcb ∧ b1.toNat = 0x80 + 8 * n.val + x.code
  | .setBit n x => op.toNat = 0xcb ∧ b1.toNat = 0xc0 + 8 * n.val + x.code
  | .push p => op.toNat = 0xc5 + 16 * p.code
  | .pop p => op.toNat = 0xc1 + 16 * p.code
  | .jumpBy none e => op.toNat = 0x18 ∧ e = b1
  | .jumpBy (some c) e => op.toNat = 0x20 + 8 * c.code ∧ e = b1
  | .jump none a => op.toNat = 0xc3 ∧ a = word b2 b1
  | .jump (some c) a => op.toNat = 0xc2 + 8 * c.code ∧ a = word b2 b1
  | .jumpHL => op.toNat = 0xe9
  | .call none a => op.toNat = 0xcd ∧ a = word b2 b1
  | .call (some c) a => op.toNat = 0xc4 + 8 * c.code ∧ a = word b2 b1
  | .restart a => op.toNat = 0xc7 + a.toNat ∧ a.toNat % 8 = 0
  | .ret none => op.toNat = 0xc9
  | .ret (some c) => op.toNat = 0xc0 + 8 * c.code
  | .retInterrupt => op.toNat = 0xd9
  | .illegal o => o = op ∧ op.toNat ∈ illegalOpcodes

/-! ## Fields and numbers -/

namespace Instr

theorem code_operand (n : Nat) : (operand n).code = min n 7 := by
  unfold operand
  split <;> simp only [Operand.code] <;> grind

theorem code_pairOf (n : Nat) : (pairOf n).code = min n 3 := by
  unfold pairOf
  split <;> simp only [Pair.code] <;> grind

theorem code_stackPairOf (n : Nat) : (stackPairOf n).code = min n 3 := by
  unfold stackPairOf
  split <;> simp only [StackPair.code] <;> grind

theorem code_pointerOf (n : Nat) : (pointerOf n).code = min n 3 := by
  unfold pointerOf
  split <;> simp only [Pointer.code] <;> grind

theorem code_conditionOf (n : Nat) : (conditionOf n).code = min n 3 := by
  unfold conditionOf
  split <;> simp only [Condition.code] <;> grind

theorem code_aluOf (n : Nat) : (aluOf n).code = min n 7 := by
  unfold aluOf
  split <;> simp only [Alu.code] <;> grind

theorem code_shiftOf (n : Nat) : (shiftOf n).code = min n 7 := by
  unfold shiftOf
  split <;> simp only [Shift.code] <;> grind

@[simp] theorem operand_code (x : Operand) : operand x.code = x := by
  cases x with
  | reg r => cases r <;> rfl
  | atHL => rfl

@[simp] theorem aluOf_code (o : Alu) : aluOf o.code = o := by cases o <;> rfl

@[simp] theorem shiftOf_code (s : Shift) : shiftOf s.code = s := by cases s <;> rfl

/-! ## Decoding -/

variable {op b1 b2 : UInt8} {y z : Nat}

/-- An opcode is made of its fields. -/
theorem toNat_eq_fields (op : UInt8) :
    op.toNat = 64 * groupField op + 8 * (middleField op).val + lowField op := by
  simp only [groupField, middleField, lowField]
  omega

theorem groupField_lt (op : UInt8) : groupField op < 4 := by
  have := op.toNat_lt
  rw [groupField]
  omega

theorem lowField_lt (op : UInt8) : lowField op < 8 := Nat.mod_lt _ (by decide)

-- one case for each row of the table, with the fields' bounds at hand
theorem encoded_ofGroup0 (hy : y < 8) (hz : z < 8) (h : op.toNat = 8 * y + z) :
    (ofGroup0 y z b1 (word b2 b1)).Encoded op b1 b2 := by
  unfold ofGroup0
  split
  all_goals (try split)
  all_goals simp only [Encoded, code_operand, code_pairOf, code_pointerOf, code_conditionOf,
    code_shiftOf, and_true]
  all_goals grind

theorem encoded_ofPage1 (h : op.toNat = 0xcb) : (ofPage1 b1).Encoded op b1 b2 := by
  have hfields := toNat_eq_fields b1
  have hlow := lowField_lt b1
  have hgroup := groupField_lt b1
  unfold ofPage1
  simp only
  split
  all_goals simp only [Encoded, code_operand, code_shiftOf]
  all_goals grind

theorem toNat_restart (op : UInt8) :
    (op &&& 0x38).toUInt16.toNat = 8 * (middleField op).val :=
  forall_byte (P := fun op => (op &&& 0x38).toUInt16.toNat = 8 * (middleField op).val)
    (by decide +kernel) op

theorem encoded_ofGroup3 (hy : y = (middleField op).val) (hz : z < 8)
    (h : op.toNat = 192 + 8 * y + z) :
    (ofGroup3 op y z b1 (word b2 b1)).Encoded op b1 b2 := by
  have hmiddle := (middleField op).isLt
  rw [← hy] at hmiddle
  unfold ofGroup3
  split
  case h_4 =>
    split
    case h_2 => exact encoded_ofPage1 h
    all_goals simp only [Encoded, illegalOpcodes, List.mem_cons, List.not_mem_nil]
    all_goals grind
  all_goals (try split)
  all_goals (try split)
  all_goals simp only [Encoded, code_stackPairOf, code_conditionOf, code_aluOf, toNat_restart,
    illegalOpcodes, List.mem_cons, List.not_mem_nil]
  all_goals grind

/-- What is decoded is in the table. -/
theorem encoded_ofBytes (op b1 b2 : UInt8) : (ofBytes op b1 b2).Encoded op b1 b2 := by
  have hfields := toNat_eq_fields op
  have hmiddle := (middleField op).isLt
  have hlow := lowField_lt op
  have hgroup := groupField_lt op
  unfold ofBytes
  simp only
  split
  case h_1 => exact encoded_ofGroup0 hmiddle hlow (by omega)
  case h_2 =>
    split
    case isTrue hhalt => simp [Encoded, hhalt]
    case isFalse hhalt =>
      have hcode : op.toNat ≠ 0x76 := fun h => hhalt (UInt8.toNat_inj.1 h)
      simp only [Encoded, code_operand]
      refine ⟨by omega, fun ⟨hx, hy⟩ => ?_⟩
      have hx := congrArg Operand.code hx
      have hy := congrArg Operand.code hy
      rw [code_operand, Operand.code] at hx hy
      omega
  case h_3 =>
    simp only [Encoded, code_operand, code_aluOf]
    omega
  case h_4 =>
    have hthree : groupField op = 3 := by grind
    exact encoded_ofGroup3 rfl hlow (by omega)

/-- A byte that is made of a group and the numbers of an operation and an operand has them for its
fields. -/
theorem fields_eq (g : Nat) (n : Fin 8) (x : Operand)
    (h : op.toNat = 64 * g + 8 * n.val + x.code) :
    groupField op = g ∧ middleField op = n ∧ operand (lowField op) = x := by
  have hx := x.code_lt
  have hn := n.isLt
  have hlow : lowField op = x.code := by
    rw [lowField]
    omega
  have hmiddle : (middleField op).val = n.val := by
    simp only [middleField]
    omega
  have hgroup : groupField op = g := by
    rw [groupField]
    omega
  exact ⟨hgroup, Fin.ext hmiddle, by rw [hlow, operand_code]⟩

theorem eq_ofNat_of_toNat {v : UInt8} {n : Nat} (h : v.toNat = n) : v = .ofNat n := by
  rw [← h, UInt8.ofNat_toNat]

theorem ofBytes_page1 (h : op.toNat = 0xcb) : ofBytes op b1 b2 = ofPage1 b1 := by
  obtain rfl := eq_ofNat_of_toNat h
  rfl

/-- What is in the table is decoded so. -/
theorem ofBytes_of_encoded {i : Instr} (h : i.Encoded op b1 b2) : ofBytes op b1 b2 = i := by
  cases i with
  | nop | stop | halt | disableInterrupts | enableInterrupts | loadAHighC | storeAHighC | loadSPHL
  | decimalAdjustA | complementA | setCarry | complementCarry | jumpHL | retInterrupt =>
    obtain rfl := eq_ofNat_of_toNat h
    rfl
  | loadAFrom | storeAAt | loadAHigh | storeAHigh | storeSP | loadHLSP | addSP =>
    obtain ⟨h, rfl⟩ := h
    obtain rfl := eq_ofNat_of_toNat h
    rfl
  | loadA p | storeA p | addHL p | incPair p | decPair p | push p | pop p =>
    obtain rfl := eq_ofNat_of_toNat h
    cases p <;> rfl
  | loadWord p =>
    obtain ⟨h, rfl⟩ := h
    obtain rfl := eq_ofNat_of_toNat h
    cases p <;> rfl
  | inc x | dec x =>
    obtain rfl := eq_ofNat_of_toNat h
    rcases x with (_ | _ | _ | _ | _ | _ | _) | _ <;> rfl
  | loadByte x =>
    obtain ⟨h, rfl⟩ := h
    obtain rfl := eq_ofNat_of_toNat h
    rcases x with (_ | _ | _ | _ | _ | _ | _) | _ <;> rfl
  | load x y =>
    obtain ⟨h, hne⟩ := h
    obtain ⟨hgroup, hmiddle, hlow⟩ := fields_eq 1 ⟨x.code, x.code_lt⟩ y h
    have hhalt : op ≠ 0x76 := by
      rintro rfl
      refine hne ⟨?_, hlow.symm⟩
      exact (operand_code x).symm.trans (congrArg (fun n => operand n.val) hmiddle.symm)
    simp only [ofBytes, hgroup, hmiddle, hlow, hhalt, if_false, operand_code]
  | alu o x =>
    have ho : o.code < 8 := by cases o <;> decide
    obtain ⟨hgroup, hmiddle, hlow⟩ := fields_eq 2 ⟨o.code, ho⟩ x h
    simp only [ofBytes, hgroup, hmiddle, hlow, aluOf_code]
  | aluByte o =>
    obtain ⟨h, rfl⟩ := h
    obtain rfl := eq_ofNat_of_toNat h
    cases o <;> rfl
  | rotateA s =>
    obtain ⟨h, hs⟩ := h
    obtain rfl := eq_ofNat_of_toNat h
    cases s <;> first | rfl | exact absurd hs (by decide)
  | shift s x =>
    have hs : s.code < 8 := by cases s <;> decide
    have hfields : b1.toNat = 64 * 0 + 8 * s.code + x.code := by simpa using h.2
    obtain ⟨hgroup, hmiddle, hlow⟩ := fields_eq 0 ⟨s.code, hs⟩ x hfields
    simp only [ofBytes_page1 h.1, ofPage1, hgroup, hmiddle, hlow, shiftOf_code]
  | testBit n x =>
    obtain ⟨hgroup, hmiddle, hlow⟩ := fields_eq 1 n x h.2
    simp only [ofBytes_page1 h.1, ofPage1, hgroup, hmiddle, hlow]
  | clearBit n x =>
    obtain ⟨hgroup, hmiddle, hlow⟩ := fields_eq 2 n x h.2
    simp only [ofBytes_page1 h.1, ofPage1, hgroup, hmiddle, hlow]
  | setBit n x =>
    obtain ⟨hgroup, hmiddle, hlow⟩ := fields_eq 3 n x h.2
    simp only [ofBytes_page1 h.1, ofPage1, hgroup, hmiddle, hlow]
  | jumpBy c | jump c | call c =>
    cases c with
    | none =>
      obtain ⟨h, rfl⟩ := h
      obtain rfl := eq_ofNat_of_toNat h
      rfl
    | some c =>
      obtain ⟨h, rfl⟩ := h
      obtain rfl := eq_ofNat_of_toNat h
      cases c <;> rfl
  | ret c =>
    cases c with
    | none =>
      obtain rfl := eq_ofNat_of_toNat h
      rfl
    | some c =>
      obtain rfl := eq_ofNat_of_toNat h
      cases c <;> rfl
  | restart a =>
    obtain ⟨h, ha⟩ := h
    have hfields := toNat_eq_fields op
    have hmiddle := (middleField op).isLt
    have hlow := lowField_lt op
    have hop := op.toNat_lt
    have hgroup : groupField op = 3 := by omega
    have hseven : lowField op = 7 := by omega
    simp only [ofBytes, hgroup, hseven, ofGroup3]
    congr 1
    rw [← UInt16.toNat_inj, toNat_restart]
    omega
  | illegal o =>
    obtain ⟨rfl, h⟩ := h
    simp only [illegalOpcodes, List.mem_cons, List.not_mem_nil, or_false] at h
    rcases h with h | h | h | h | h | h | h | h | h | h | h <;>
      obtain rfl := eq_ofNat_of_toNat h <;> rfl

/-- The processor decodes three bytes as the table says. -/
theorem ofBytes_eq_iff (op b1 b2 : UInt8) (i : Instr) :
    ofBytes op b1 b2 = i ↔ i.Encoded op b1 b2 := by
  refine ⟨?_, ofBytes_of_encoded⟩
  rintro rfl
  exact encoded_ofBytes op b1 b2

end Instr

namespace Cpu

variable {β : Type} [Bus β] {cpu : Cpu} {bus : β} {i : Instr}

/-- The bytes at `pc` are those of the instruction that is executed. -/
theorem encoded_of_executed (h : (cpu.step bus).outcome.Executed i) :
    i.Encoded (Bus.read bus cpu.regs.pc) (Bus.read bus (cpu.regs.pc + 1))
      (Bus.read bus (cpu.regs.pc + 2)) :=
  (Instr.ofBytes_eq_iff ..).1 (fetch_of_executed h)

/-- The processor is at an instruction: the bytes at `pc` are those of it, no interrupt is there to
be served, and the processor does not wait for one. -/
structure IsAt (cpu : Cpu) (bus : β) (i : Instr) : Prop where
  encoded : i.Encoded (Bus.read bus cpu.regs.pc) (Bus.read bus (cpu.regs.pc + 1))
    (Bus.read bus (cpu.regs.pc + 2))
  undisturbed : ¬ (cpu.ime = true ∧ pending bus ≠ 0)
  awake : cpu.halted = false ∨ pending bus ≠ 0

/-- A step executes the instruction that the processor is at, and no other. -/
theorem isAt_iff : cpu.IsAt bus i ↔ (cpu.step bus).outcome.Executed i := by
  constructor
  · intro h
    rw [step_executed h.awake h.undisturbed (Instr.ofBytes_of_encoded h.encoded)]
    exact ⟨_, rfl⟩
  · intro h
    obtain ⟨hawake, hundisturbed, -, -⟩ := executed_cases h
    exact ⟨encoded_of_executed h, hundisturbed, hawake⟩

end Cpu

end GameBoy
