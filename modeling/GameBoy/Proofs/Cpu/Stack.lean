import Mathlib.Logic.Function.Iterate
import GameBoy.Proofs.Cpu.Operands
import GameBoy.Proofs.Cpu.Service

/-!
# The stack is last in, first out

The stack grows downwards and wraps around at the beginning of memory. Pushed words come off it in
reverse as long as all of them fit into memory, so calls that are made one inside the other return
to the instructions after them, the innermost first, as long as the stack does not grow into their
code.

* `Below`: the bytes below an address, around the end of memory.
* `Registers.stacked_pushAll`, `Registers.popAll_of_stacked`: pushed words lie in memory in reverse,
  and words that lie there are popped in order.
* `Cpu.Routine`: a routine in memory that returns, and calls another one before.
* `Cpu.Nests`, `Cpu.Routine.nests`: so many calls, then as many returns.
* `Cpu.stack_lifo`: the laws of the stack.
-/

namespace GameBoy

/-! ## Bytes below an address -/

/-- The address is that of one of the `n` bytes below `sp`, counted around the end of memory. -/
def Below (sp : UInt16) (n : Nat) (a : UInt16) : Prop := (sp - 1 - a).toNat < n

instance (sp : UInt16) (n : Nat) (a : UInt16) : Decidable (Below sp n a) :=
  inferInstanceAs (Decidable (_ < n))

theorem toNat_sub_one_sub (sp a : UInt16) :
    (sp - 1 - a).toNat = (sp.toNat + 65535 + (65536 - a.toNat)) % 65536 := by
  have := a.toNat_lt
  rw [UInt16.toNat_sub, UInt16.toNat_sub]
  change (2 ^ 16 - _ + (2 ^ 16 - 1 + _) % 2 ^ 16) % 2 ^ 16 = _
  omega

/-- Not all of memory is below an address if some byte is not. -/
theorem lt_of_not_below {sp a : UInt16} {n : Nat} (h : ¬ Below sp n a) : n < 65536 := by
  have := (sp - 1 - a).toNat_lt
  rw [Below] at h
  omega

theorem not_below_self {sp : UInt16} {n : Nat} (hn : n < 65536) : ¬ Below sp n sp := by
  have := sp.toNat_lt
  rw [Below, toNat_sub_one_sub]
  omega

theorem not_below_next {sp : UInt16} {n : Nat} (hn : n + 2 ≤ 65536) : ¬ Below sp n (sp + 1) := by
  have := sp.toNat_lt
  have hnext : (sp + 1).toNat = (sp.toNat + 1) % 65536 := UInt16.toNat_add sp 1
  rw [Below, toNat_sub_one_sub, hnext]
  omega

/-- Two more bytes are the two that a push writes, and those below them. -/
theorem below_add_two (sp a : UInt16) {n : Nat} (hn : n + 2 ≤ 65536) :
    Below sp (n + 2) a ↔ a = sp - 1 ∨ a = sp - 2 ∨ Below (sp - 2) n a := by
  have ha := a.toNat_lt
  have hsp := sp.toNat_lt
  have hone : (sp - 1).toNat = (sp.toNat + 65535) % 65536 := by
    rw [UInt16.toNat_sub]
    change (2 ^ 16 - 1 + _) % 2 ^ 16 = _
    omega
  have htwo : (sp - 2).toNat = (sp.toNat + 65534) % 65536 := by
    rw [UInt16.toNat_sub]
    change (2 ^ 16 - 2 + _) % 2 ^ 16 = _
    omega
  simp only [Below, toNat_sub_one_sub, ← UInt16.toNat_inj, htwo, hone]
  omega

/-- The stack pointer after one more word. -/
theorem sub_two_sub (sp : UInt16) (n : Nat) :
    sp - 2 - 2 * UInt16.ofNat n = sp - 2 * UInt16.ofNat (n + 1) := by
  rw [UInt16.ofNat_add]
  grind

theorem sub_two_mul_zero (sp : UInt16) : sp - 2 * UInt16.ofNat 0 = sp := by simp

namespace Registers

/-! ## Pairs of registers -/

theorem highByte_and (v w : UInt16) : highByte (v &&& w) = highByte v &&& highByte w := by
  rw [highByte, highByte, highByte, ← UInt16.toUInt8_and, ← UInt16.shiftRight_and]

theorem lowByte_and (v w : UInt16) : lowByte (v &&& w) = lowByte v &&& lowByte w :=
  UInt16.toUInt8_and v w

/-- A pair holds the word that was put there, or as much of it as the flags can show, and the other
pairs are as before. -/
theorem stackPair_setStackPair (r : Registers) (p q : StackPair) (v : UInt16) :
    (r.setStackPair p v).stackPair q =
      if p = q then (if p = .af then v &&& 0xfff0 else v) else r.stackPair q := by
  have hflags : word (highByte v) (Flags.ofByte (lowByte v)).toByte = v &&& 0xfff0 := by
    have hhigh : highByte (v &&& 0xfff0) = highByte v := by
      rw [highByte_and]
      exact UInt8.and_neg_one
    have hlow : lowByte (v &&& 0xfff0) = lowByte v &&& 0xf0 := lowByte_and v _
    rw [Flags.toByte_ofByte, ← hhigh, ← hlow, word_highByte_lowByte]
  cases p <;> cases q <;>
    first
    | rfl
    | exact word_highByte_lowByte v
    | exact hflags

/-! ## Words on the stack -/

section Words

variable {β : Type} [Bus β]

/-- Pushes some words, one after the other. -/
def pushAll (r : Registers) (bus : β) : List UInt16 → Registers × β
  | [] => (r, bus)
  | v :: vs => (r.pushWord v bus).1.pushAll (r.pushWord v bus).2 vs

/-- Takes `n` words off the stack: the words, the first one first, and the registers afterwards. -/
def popAll (r : Registers) (bus : β) : Nat → List UInt16 × Registers
  | 0 => ([], r)
  | n + 1 =>
    let rest := (r.popWord bus).2.popAll bus n
    ((r.popWord bus).1 :: rest.1, rest.2)

theorem pushAll_fst (r : Registers) (bus : β) (vs : List UInt16) :
    (r.pushAll bus vs).1 = { r with sp := r.sp - 2 * UInt16.ofNat vs.length } := by
  induction vs generalizing r bus with
  | nil =>
    rw [List.length_nil, sub_two_mul_zero]
    rfl
  | cons v vs ih =>
    rw [pushAll, ih, List.length_cons, ← sub_two_sub]
    rfl

end Words

variable {r : Registers} {m m' : Flat} {sp : UInt16} {ws : List UInt16}

theorem read_pushWord (r : Registers) (v : UInt16) (m : Flat) (a : UInt16) :
    Bus.read (r.pushWord v m).2 a =
      if r.sp - 2 = a then lowByte v else if r.sp - 1 = a then highByte v else Bus.read m a := by
  rw [pushWord, Flat.read_write, Flat.read_write]

/-- A pushed word is on top. -/
theorem readWord_pushWord (r : Registers) (v : UInt16) (m : Flat) :
    Bus.readWord (r.pushWord v m).2 (r.sp - 2) = v := by
  have hnext : r.sp - 2 + 1 = r.sp - 1 := by grind
  have hdiffer : r.sp - 2 ≠ r.sp - 1 := by grind
  rw [Bus.readWord, hnext, read_pushWord, read_pushWord, if_neg hdiffer, if_pos rfl, if_pos rfl,
    word_highByte_lowByte]

/-- A push reaches the two bytes below the stack pointer and no other. -/
theorem read_pushWord_of_not_below {v a : UInt16} (ha : ¬ Below r.sp 2 a) :
    Bus.read (r.pushWord v m).2 a = Bus.read m a := by
  have hbelow := below_add_two r.sp a (n := 0) (by decide)
  rw [read_pushWord, if_neg fun h => ha (hbelow.2 (.inr (.inl h.symm))),
    if_neg fun h => ha (hbelow.2 (.inl h.symm))]

/-- Words lie in memory from an address on. -/
def Stacked (m : Flat) : UInt16 → List UInt16 → Prop
  | _, [] => True
  | a, w :: ws => Bus.readWord m a = w ∧ Stacked m (a + 2) ws

/-- Words stay where they are while only bytes below them change. -/
theorem Stacked.of_agrees (h : Stacked m sp ws) (n : Nat) (hn : n + 2 * ws.length ≤ 65536)
    (hagrees : ∀ a, ¬ Below sp n a → Bus.read m' a = Bus.read m a) : Stacked m' sp ws := by
  induction ws generalizing sp n with
  | nil => trivial
  | cons w ws ih =>
    rw [List.length_cons] at hn
    refine ⟨?_, ih h.2 (n + 2) (by omega) fun a ha => hagrees a fun hbelow => ha ?_⟩
    · rw [← h.1, Bus.readWord, Bus.readWord, hagrees _ (not_below_self (by omega)),
        hagrees _ (not_below_next (by omega))]
    · have hback : sp + 2 - 2 = sp := by grind
      rw [below_add_two _ _ (by omega), hback]
      exact .inr (.inr hbelow)

/-- Words that lie from the stack pointer on are popped in order. -/
theorem popAll_of_stacked (h : Stacked m r.sp ws) :
    r.popAll m ws.length = (ws, { r with sp := r.sp + 2 * UInt16.ofNat ws.length }) := by
  induction ws generalizing r with
  | nil =>
    have hsp : r.sp + 2 * UInt16.ofNat 0 = r.sp := by simp
    rw [List.length_nil, hsp]
    rfl
  | cons w ws ih =>
    have hrest := @ih (r.popWord m).2 h.2
    have hsp : r.sp + 2 + 2 * UInt16.ofNat ws.length = r.sp + 2 * UInt16.ofNat (ws.length + 1) := by
      rw [UInt16.ofNat_add]
      grind
    simp only [List.length_cons, popAll, hrest]
    rw [← hsp]
    exact Prod.ext (congrArg (· :: ws) h.1) rfl

/-- Pushed words lie on those that were there, the last one on top, and no byte but theirs has
changed. -/
theorem stacked_pushAll {vs : List UInt16} (h : Stacked m r.sp ws)
    (hroom : 2 * vs.length + 2 * ws.length ≤ 65536) :
    Stacked (r.pushAll m vs).2 (r.pushAll m vs).1.sp (vs.reverse ++ ws) ∧
      ∀ a, ¬ Below r.sp (2 * vs.length) a → Bus.read (r.pushAll m vs).2 a = Bus.read m a := by
  induction vs generalizing r m ws with
  | nil => exact ⟨h, fun _ _ => rfl⟩
  | cons v vs ih =>
    rw [List.length_cons] at hroom
    have hpushed : Stacked (r.pushWord v m).2 (r.pushWord v m).1.sp (v :: ws) := by
      have hback : (r.pushWord v m).1.sp + 2 = r.sp := by
        change r.sp - 2 + 2 = r.sp
        grind
      refine ⟨r.readWord_pushWord v m, ?_⟩
      rw [hback]
      exact h.of_agrees 2 (by omega) fun a ha => read_pushWord_of_not_below ha
    obtain ⟨hstacked, helsewhere⟩ := ih hpushed (by rw [List.length_cons]; omega)
    rw [List.reverse_cons, List.append_assoc]
    refine ⟨hstacked, fun a ha => ?_⟩
    rw [List.length_cons, Nat.mul_succ] at ha
    have hfirst : ¬ Below r.sp 2 a := fun h => ha (Nat.lt_of_lt_of_le h (Nat.le_add_left 2 _))
    have hrest : ¬ Below (r.sp - 2) (2 * vs.length) a := fun h =>
      ha ((below_add_two _ _ (by omega)).2 (.inr (.inr h)))
    exact (helsewhere a hrest).trans (read_pushWord_of_not_below hfirst)

/-- Words come off the stack in reverse, and the stack pointer returns to where it was. -/
theorem popAll_pushAll (r : Registers) (m : Flat) {vs : List UInt16} (hvs : vs.length ≤ 32768) :
    (r.pushAll m vs).1.popAll (r.pushAll m vs).2 vs.length = (vs.reverse, r) := by
  have hroom : 2 * vs.length + 2 * ([] : List UInt16).length ≤ 65536 := by
    rw [List.length_nil]
    omega
  have hnone : Stacked m r.sp [] := trivial
  obtain ⟨hstacked, -⟩ := stacked_pushAll hnone hroom
  rw [List.append_nil] at hstacked
  have hback : r.sp - 2 * UInt16.ofNat vs.length + 2 * UInt16.ofNat vs.length = r.sp := by grind
  rw [← List.length_reverse, popAll_of_stacked hstacked, List.length_reverse, pushAll_fst, hback]

end Registers

/-! ## Calls and returns -/

namespace Instr

/-- Where the program goes on if the instruction is a call that the flags let be made. -/
def calls? (i : Instr) (f : Flags) : Option UInt16 :=
  match i with
  | .call c a => if Condition.met c f then some a else none
  | .restart a => some a
  | _ => none

/-- The instruction is a return that the flags let be made. -/
def Returns (i : Instr) (f : Flags) : Prop :=
  match i with
  | .ret c => Condition.met c f = true
  | _ => False

variable {i : Instr} {f : Flags} {a : UInt16} {r : Registers} {β : Type} [Bus β]

theorem operate_of_calls (h : i.calls? r.flags = some a) (bus : β) :
    i.operate r bus = r.callTo a bus := by
  cases i with
  | call c b =>
    by_cases hmet : Condition.met c r.flags = true
    · obtain rfl : b = a := by simpa [calls?, hmet] using h
      simp only [operate, hmet, if_true]
    · simp [calls?, hmet] at h
  | restart b =>
    obtain rfl : b = a := by simpa [calls?] using h
    rfl
  | _ => cases h

theorem operate_of_returns (h : i.Returns r.flags) (bus : β) :
    i.operate r bus = (r.returnTo bus, bus) := by
  cases i with
  | ret c =>
    have hmet : Condition.met c r.flags = true := h
    simp only [operate, hmet, if_true]
  | _ => exact h.elim

/-- The instruction is a call or a return that the flags let be made. -/
def CallsOrReturns (i : Instr) (f : Flags) : Prop := (∃ a, i.calls? f = some a) ∨ i.Returns f

/-- There are three kinds of them. -/
theorem CallsOrReturns.form (h : i.CallsOrReturns f) :
    (∃ c a, i = .call c a) ∨ (∃ a, i = .restart a) ∨ ∃ c, i = .ret c := by
  cases i with
  | call c a => exact .inl ⟨c, a, rfl⟩
  | restart a => exact .inr (.inl ⟨a, rfl⟩)
  | ret c => exact .inr (.inr ⟨c, rfl⟩)
  | _ =>
    obtain ⟨_, hcalls⟩ | hreturns := h
    · cases hcalls
    · exact hreturns.elim

/-- Calls and returns reach the processor through its registers alone. -/
theorem CallsOrReturns.plain (h : i.CallsOrReturns f) :
    i ≠ .stop ∧ ∀ cpu : Cpu, cpu.control i = cpu := by
  obtain ⟨c, a, rfl⟩ | ⟨a, rfl⟩ | ⟨c, rfl⟩ := h.form <;> exact ⟨nofun, fun _ => rfl⟩

/-- The bytes after a call or a return have no part in it. -/
theorem CallsOrReturns.encoded {op b1 b2 b1' b2' : UInt8} (h : i.CallsOrReturns f)
    (hencoded : i.Encoded op b1 b2) (h1 : 1 < i.length.toNat → b1' = b1)
    (h2 : 2 < i.length.toNat → b2' = b2) : i.Encoded op b1' b2' := by
  obtain ⟨c, a, rfl⟩ | ⟨a, rfl⟩ | ⟨c, rfl⟩ := h.form
  · rw [h1 (show 1 < (3 : UInt16).toNat by decide), h2 (show 2 < (3 : UInt16).toNat by decide)]
    exact hencoded
  · exact hencoded
  · cases c <;> exact hencoded

theorem length_pos (i : Instr) : 0 < i.length.toNat := by
  unfold length
  split <;> decide

end Instr

namespace Cpu

/-! ## Registers and memory -/

/-- The registers and memory. -/
abbrev Place := Registers × Flat

/-- The instruction that `pc` points to. -/
def upcoming (s : Place) : Instr := fetch s.2 s.1.pc

/-- One instruction, as far as the registers and memory go. -/
def obey (s : Place) : Place :=
  (upcoming s).operate (s.1.goto (s.1.pc + (upcoming s).length)) s.2

variable {m : Flat} {stack : UInt16 → Prop} {f : Flags} {a b : UInt16} {i : Instr} {s : Place}
  {backs : List UInt16}

/-- A call leaves the address after it on the stack. -/
theorem obey_of_calls (h : (upcoming s).calls? s.1.flags = some a) :
    obey s = ({ s.1 with sp := s.1.sp - 2, pc := a },
      (s.1.pushWord (s.1.pc + (upcoming s).length) s.2).2) :=
  Instr.operate_of_calls (r := s.1.goto (s.1.pc + (upcoming s).length)) h s.2

/-- A return goes to the address on the stack. -/
theorem obey_of_returns (h : (upcoming s).Returns s.1.flags) :
    obey s = ({ s.1 with sp := s.1.sp + 2, pc := Bus.readWord s.2 s.1.sp }, s.2) :=
  Instr.operate_of_returns (r := s.1.goto (s.1.pc + (upcoming s).length)) h s.2

/-! ## Nested calls -/

/-- An instruction lies at an address, and none of its bytes is one that the stack may take. -/
structure Lies (m : Flat) (stack : UInt16 → Prop) (a : UInt16) (i : Instr) : Prop where
  encoded : i.Encoded (Bus.read m a) (Bus.read m (a + 1)) (Bus.read m (a + 2))
  clear : ∀ k < i.length.toNat, ¬ stack (a + UInt16.ofNat k)

theorem Lies.clear_first (h : Lies m stack a i) : ¬ stack a := by
  have hfirst := h.clear 0 i.length_pos
  have ha : a + UInt16.ofNat 0 = a := by simp
  rwa [ha] at hfirst

/-- While only the stack has changed, the instruction is found there. -/
theorem Lies.fetch_eq (h : Lies m stack a i) (hi : i.CallsOrReturns f) {m' : Flat}
    (hagrees : ∀ b, ¬ stack b → Bus.read m' b = Bus.read m b) : fetch m' a = i := by
  refine Instr.ofBytes_of_encoded ?_
  rw [hagrees a h.clear_first]
  exact hi.encoded h.encoded (fun hk => hagrees _ (h.clear 1 hk)) fun hk => hagrees _ (h.clear 2 hk)

/-- At an address begins a routine that returns, and before that may make a call of another one. The
list holds the addresses after the calls, that of the outermost one first. -/
inductive Routine (m : Flat) (stack : UInt16 → Prop) (f : Flags) : UInt16 → List UInt16 → Prop
  | returns {a : UInt16} {i : Instr} (lies : Lies m stack a i) (hreturns : i.Returns f) :
      Routine m stack f a []
  | calls {a b : UInt16} {i j : Instr} {backs : List UInt16} (call : Lies m stack a i)
      (hcalls : i.calls? f = some b) (callee : Routine m stack f b backs)
      (back : Lies m stack (a + i.length) j) (hreturns : j.Returns f) :
      Routine m stack f a ((a + i.length) :: backs)

/-- From a place on, so many calls are made, one inside the other, and then as many returns, which
lead to the addresses of the list, that of the outermost call last. Only the bytes of the stack that
the calls take are touched. -/
structure Nests (s : Place) (backs : List UInt16) : Prop where
  calls : ∀ k < backs.length, ∃ b, (upcoming (obey^[k] s)).calls? s.1.flags = some b
  returns : ∀ k, backs.length ≤ k → k < 2 * backs.length →
    (upcoming (obey^[k] s)).Returns s.1.flags
  comes : ∀ k (hk : k < backs.length), (obey^[2 * backs.length - k] s).1 =
    { s.1 with pc := backs[k], sp := s.1.sp - 2 * UInt16.ofNat k }
  keeps : ∀ k ≤ 2 * backs.length, ∀ b, ¬ Below s.1.sp (2 * backs.length) b →
    Bus.read (obey^[k] s).2 b = Bus.read s.2 b

theorem nests_nil (s : Place) : Nests s [] where
  calls k hk := absurd hk (Nat.not_lt_zero k)
  returns k _ hk := absurd hk (Nat.not_lt_zero k)
  comes k hk := absurd hk (Nat.not_lt_zero k)
  keeps k hk b _ := by
    obtain rfl : k = 0 := Nat.le_zero.1 hk
    rfl

/-- In the end the registers are as before, apart from `pc`. -/
theorem Nests.regs_eq (h : Nests s backs) :
    ∃ p, (obey^[2 * backs.length] s).1 = { s.1 with pc := p } := by
  cases backs with
  | nil => exact ⟨s.1.pc, rfl⟩
  | cons b backs =>
    have hcomes := h.comes 0 (Nat.zero_lt_succ _)
    rw [sub_two_mul_zero] at hcomes
    exact ⟨b, hcomes⟩

/-- Every instruction of it is a call or a return. -/
theorem Nests.callsOrReturns (h : Nests s backs) {k : Nat} (hk : k < 2 * backs.length) :
    (upcoming (obey^[k] s)).CallsOrReturns s.1.flags := by
  rcases Nat.lt_or_ge k backs.length with hlt | hge
  · exact .inl (h.calls k hlt)
  · exact .inr (h.returns k hge hk)

/-- A called routine that has returned from all its calls returns to where it was called. -/
theorem Nests.comes_back (h : Nests (obey s) backs)
    (hcalls : (upcoming s).calls? s.1.flags = some b) (hroom : 2 * backs.length + 2 ≤ 65536)
    (hreturns : (upcoming (obey^[2 * backs.length] (obey s))).Returns s.1.flags) :
    obey^[2 * backs.length + 2] s =
      ({ s.1 with pc := s.1.pc + (upcoming s).length }, (obey^[2 * backs.length] (obey s)).2) := by
  have hcalled := obey_of_calls hcalls
  have hsp : (obey s).1.sp = s.1.sp - 2 := by rw [hcalled]
  have hword : Bus.readWord (obey^[2 * backs.length] (obey s)).2 (s.1.sp - 2) =
      s.1.pc + (upcoming s).length := by
    rw [Bus.readWord, ← hsp, h.keeps _ (Nat.le_refl _) _ (not_below_self (by omega)),
      h.keeps _ (Nat.le_refl _) _ (not_below_next hroom), ← Bus.readWord, hsp, hcalled]
    exact s.1.readWord_pushWord _ s.2
  have hup : s.1.sp - 2 + 2 = s.1.sp := by grind
  obtain ⟨p, hregs⟩ := h.regs_eq
  have hflags : (obey^[2 * backs.length] (obey s)).1.flags = s.1.flags := by rw [hregs, hcalled]
  rw [Function.iterate_succ_apply, Function.iterate_succ_apply',
    obey_of_returns (hflags ▸ hreturns)]
  rw [hregs, hsp, hword, hcalled, hup]

/-- A call, and what the called routine does until it has returned. -/
theorem Nests.cons (h : Nests (obey s) backs)
    (hcalls : (upcoming s).calls? s.1.flags = some b) (hroom : 2 * backs.length + 2 ≤ 65536)
    (hreturns : (upcoming (obey^[2 * backs.length] (obey s))).Returns s.1.flags) :
    Nests s ((s.1.pc + (upcoming s).length) :: backs) := by
  have hcalled := obey_of_calls hcalls
  have hback := h.comes_back hcalls hroom hreturns
  have hflags : (obey s).1.flags = s.1.flags := by rw [hcalled]
  have hsp : (obey s).1.sp = s.1.sp - 2 := by rw [hcalled]
  constructor
  case calls =>
    intro k hk
    cases k with
    | zero => exact ⟨b, hcalls⟩
    | succ k =>
      rw [Function.iterate_succ_apply, ← hflags]
      exact h.calls k (Nat.lt_of_succ_lt_succ hk)
  case returns =>
    intro k hk hk'
    rw [List.length_cons] at hk hk'
    obtain ⟨k, rfl⟩ := Nat.exists_eq_succ_of_ne_zero (n := k) (by omega)
    rw [Function.iterate_succ_apply]
    rcases Nat.lt_or_ge k (2 * backs.length) with hlt | hge
    · rw [← hflags]
      exact h.returns k (Nat.le_of_succ_le_succ hk) hlt
    · obtain rfl : k = 2 * backs.length := by omega
      exact hreturns
  case comes =>
    intro k hk
    cases k with
    | zero =>
      rw [sub_two_mul_zero]
      exact congrArg Prod.fst hback
    | succ k =>
      have hk : k < backs.length := Nat.lt_of_succ_lt_succ hk
      have hcount : 2 * (backs.length + 1) - (k + 1) = 2 * backs.length - k + 1 := by omega
      rw [List.length_cons, hcount, Function.iterate_succ_apply, h.comes k hk, hsp, sub_two_sub,
        hcalled]
      rfl
  case keeps =>
    intro k hk c hc
    rw [List.length_cons, Nat.mul_succ] at hk hc
    have hinner (j : Nat) (hj : j ≤ 2 * backs.length) :
        Bus.read (obey^[j] (obey s)).2 c = Bus.read s.2 c := by
      have hfirst : ¬ Below s.1.sp 2 c := fun h => hc (Nat.lt_of_lt_of_le h (Nat.le_add_left 2 _))
      have hrest : ¬ Below (obey s).1.sp (2 * backs.length) c := by
        rw [hsp]
        exact fun h => hc ((below_add_two _ _ hroom).2 (.inr (.inr h)))
      rw [h.keeps j hj c hrest, hcalled, Registers.read_pushWord_of_not_below hfirst]
    rcases Nat.lt_or_eq_of_le hk with hlt | rfl
    · cases k with
      | zero => rfl
      | succ k => exact hinner k (by omega)
    · rw [hback]
      exact hinner _ (Nat.le_refl _)

/-- The program is at an address, with its code in memory and room for `n` words on the stack. -/
structure Starts (m : Flat) (stack : UInt16 → Prop) (f : Flags) (a : UInt16) (n : Nat) (s : Place) :
    Prop where
  pc : s.1.pc = a
  flags : s.1.flags = f
  agrees : ∀ c, ¬ stack c → Bus.read s.2 c = Bus.read m c
  room : 2 * n ≤ 65536
  free : ∀ c, Below s.1.sp (2 * n) c → stack c

/-- A call takes two bytes of the stack, and the rest is for the called routine. -/
theorem Starts.call {n : Nat} (h : Starts m stack f a (n + 1) s)
    (hcalls : (upcoming s).calls? s.1.flags = some b) : Starts m stack f b n (obey s) := by
  have hroom := h.room
  have hfree := h.free
  rw [Nat.mul_succ] at hroom hfree
  have hcalled := obey_of_calls hcalls
  constructor
  case pc => rw [hcalled]
  case flags => rw [hcalled, ← h.flags]
  case agrees =>
    intro c hc
    rw [hcalled, Registers.read_pushWord_of_not_below, h.agrees c hc]
    exact fun hbelow => hc (hfree c (Nat.lt_of_lt_of_le hbelow (Nat.le_add_left 2 _)))
  case room => omega
  case free =>
    intro c hc
    rw [hcalled] at hc
    exact hfree c ((below_add_two _ _ hroom).2 (.inr (.inr hc)))

/-- A routine in memory makes its calls and returns from them, and then it returns. -/
theorem Routine.nests (h : Routine m stack f a backs) (hs : Starts m stack f a backs.length s) :
    Nests s backs ∧ (upcoming (obey^[2 * backs.length] s)).Returns s.1.flags := by
  induction h generalizing s with
  | returns lies hreturns =>
    obtain ⟨rfl, rfl, hagrees, -, -⟩ := hs
    have hfound : upcoming s = _ := lies.fetch_eq (.inr hreturns) hagrees
    refine ⟨nests_nil s, ?_⟩
    rw [List.length_nil, Nat.mul_zero, Function.iterate_zero_apply, hfound]
    exact hreturns
  | @calls a b i j backs call hcalls callee back hreturns ih =>
    have hroom := hs.room
    have hfree := hs.free
    rw [List.length_cons, Nat.mul_succ] at hroom hfree
    obtain ⟨rfl, rfl, hagrees, -, -⟩ := id hs
    obtain rfl : upcoming s = i := call.fetch_eq (.inl ⟨b, hcalls⟩) hagrees
    obtain ⟨hinner, hleaves⟩ := ih (hs.call hcalls)
    rw [(hs.call hcalls).flags] at hleaves
    have hnests := hinner.cons hcalls hroom hleaves
    have hpc : (obey^[2 * backs.length + 2] s).1.pc = s.1.pc + (upcoming s).length := by
      rw [hinner.comes_back hcalls hroom hleaves]
    -- the return is still where it was
    have hfound : fetch (obey^[2 * backs.length + 2] s).2 (s.1.pc + (upcoming s).length) = j :=
      back.fetch_eq (.inr hreturns) fun c hc =>
        (hnests.keeps _ (Nat.le_refl _) c fun h => hc (hfree c h)).trans (hagrees c hc)
    refine ⟨hnests, ?_⟩
    rw [List.length_cons, Nat.mul_succ, upcoming, hpc, hfound]
    exact hreturns

/-- A call of a routine in memory. -/
theorem nests_of_call {r : Registers} (hlies : Lies m (Below r.sp (2 * backs.length + 2)) r.pc i)
    (hcalls : i.calls? r.flags = some b)
    (hroutine : Routine m (Below r.sp (2 * backs.length + 2)) r.flags b backs) :
    Nests (r, m) ((r.pc + i.length) :: backs) := by
  -- the call itself lies outside the stack, so the stack is not all of memory
  have hroom : 2 * backs.length + 2 ≤ 65536 := Nat.le_of_lt (lt_of_not_below hlies.clear_first)
  have hstarts :
      Starts m (Below r.sp (2 * backs.length + 2)) r.flags r.pc (backs.length + 1) (r, m) :=
    ⟨rfl, rfl, fun _ _ => rfl, hroom, fun _ => id⟩
  obtain rfl : upcoming (r, m) = i := hlies.fetch_eq (.inl ⟨b, hcalls⟩) fun _ _ => rfl
  obtain ⟨hinner, hleaves⟩ := hroutine.nests (hstarts.call hcalls)
  rw [(hstarts.call hcalls).flags] at hleaves
  exact hinner.cons hcalls hroom hleaves

/-! ## Steps -/

section Steps

variable {cpu : Cpu} {n : Nat}

theorem obey_of_executed (h : (cpu.step m).outcome.Executed i) (hi : i ≠ .stop) :
    ((cpu.step m).cpu.regs, (cpu.step m).bus) = obey (cpu.regs, m) := by
  simp only [obey, upcoming, fetch_of_executed h, regs_of_executed h, bus_of_executed h hi]

/-- While steps execute instructions, the registers and memory go the way of the instructions. -/
theorem after_eq_obey (hexecutes : ∀ k < n, ∃ i, (cpu.outcomeAfter m k).Executed i)
    (hplain : ∀ k < n, upcoming (obey^[k] (cpu.regs, m)) ≠ .stop) :
    ((cpu.after m n).1.regs, (cpu.after m n).2) = obey^[n] (cpu.regs, m) := by
  induction n with
  | zero => rfl
  | succ n ih =>
    have ih := ih (fun k hk => hexecutes k (Nat.lt_succ_of_lt hk))
      fun k hk => hplain k (Nat.lt_succ_of_lt hk)
    obtain ⟨i, hi⟩ := hexecutes n (Nat.lt_succ_self n)
    have hstop := hplain n (Nat.lt_succ_self n)
    rw [← ih] at hstop
    have hfetch : upcoming ((cpu.after m n).1.regs, (cpu.after m n).2) = i := fetch_of_executed hi
    rw [Function.iterate_succ_apply', ← ih]
    exact obey_of_executed hi (hfetch ▸ hstop)

/-- The processor is awake, and interrupts are disabled and not about to be enabled. -/
structure Quiet (cpu : Cpu) : Prop where
  awake : cpu.halted = false
  ime : cpu.ime = false
  imePending : cpu.imePending = false

theorem Quiet.executes (h : cpu.Quiet) (m : Flat) :
    (cpu.step m).outcome.Executed (fetch m cpu.regs.pc) := by
  rw [step_executed (.inl h.awake) (by simp [h.ime]) rfl]
  exact ⟨_, rfl⟩

/-- It stays so after an instruction that does nothing to the processor's switches. -/
theorem Quiet.step (h : cpu.Quiet) (hplain : cpu.awake.control (fetch m cpu.regs.pc) = cpu.awake) :
    (cpu.step m).cpu.Quiet := by
  obtain ⟨hime, hpending, hhalted⟩ := switches_of_executed (h.executes m)
  rw [hplain] at hime hpending hhalted
  refine ⟨hhalted, ?_, ?_⟩
  · rw [hime, h.imePending, Bool.false_and, Bool.or_false]
    exact h.ime
  · rw [hpending, h.imePending]
    exact Bool.and_eq_false_iff.2 (.inl h.imePending)

/-- While steps execute instructions, the calls and returns are made. -/
theorem Nests.after_eq (h : Nests (cpu.regs, m) backs)
    (hexecutes : ∀ k < 2 * backs.length, ∃ i, (cpu.outcomeAfter m k).Executed i) {k : Nat}
    (hk : k ≤ 2 * backs.length) :
    cpu.after m k = ({ (cpu.after m k).1 with regs := (obey^[k] (cpu.regs, m)).1 },
      (obey^[k] (cpu.regs, m)).2) := by
  rw [← after_eq_obey (fun j hj => hexecutes j (Nat.lt_of_lt_of_le hj hk)) fun j hj =>
    (h.callsOrReturns (Nat.lt_of_lt_of_le hj hk)).plain.1]

theorem Nests.executed (h : Nests (cpu.regs, m) backs)
    (hexecutes : ∀ k < 2 * backs.length, ∃ i, (cpu.outcomeAfter m k).Executed i) {k : Nat}
    (hk : k < 2 * backs.length) :
    (cpu.outcomeAfter m k).Executed (upcoming (obey^[k] (cpu.regs, m))) := by
  obtain ⟨i, hi⟩ := hexecutes k hk
  have hfetch := fetch_of_executed hi
  rw [h.after_eq hexecutes (Nat.le_of_lt hk)] at hfetch
  rw [upcoming, hfetch]
  exact hi

/-- Nothing disturbs calls and returns while interrupts are disabled. -/
theorem Nests.executes (h : Nests (cpu.regs, m) backs) (hquiet : cpu.Quiet) :
    ∀ k < 2 * backs.length, ∃ i, (cpu.outcomeAfter m k).Executed i := by
  -- quiet before each step, as all steps before it were executed
  have hall (k : Nat) (hk : k ≤ 2 * backs.length) : (cpu.after m k).1.Quiet ∧
      ∀ j < k, ∃ i, (cpu.outcomeAfter m j).Executed i := by
    induction k with
    | zero => exact ⟨hquiet, fun j hj => absurd hj (Nat.not_lt_zero j)⟩
    | succ k ih =>
      obtain ⟨hquiet, hexecuted⟩ := ih (Nat.le_of_succ_le hk)
      have hat := after_eq_obey hexecuted fun j hj =>
        (h.callsOrReturns (Nat.lt_trans hj hk)).plain.1
      have hplain := (h.callsOrReturns hk).plain.2
      rw [← hat] at hplain
      refine ⟨hquiet.step (hplain _), fun j hj => ?_⟩
      rcases Nat.lt_or_eq_of_le (Nat.le_of_lt_succ hj) with hlt | rfl
      · exact hexecuted j hlt
      · exact ⟨_, hquiet.executes _⟩
  exact (hall _ (Nat.le_refl _)).2

/-- What is popped after a push is what was pushed. -/
theorem regs_of_popped {p q : StackPair} (hpush : cpu.IsAt m (.push p))
    (hpop : (cpu.step m).cpu.IsAt (cpu.step m).bus (.pop q)) :
    (cpu.after m 2).1.regs =
      { cpu.regs with pc := cpu.regs.pc + 2 }.setStackPair q (cpu.regs.stackPair p) := by
  have hpair : (cpu.regs.goto (cpu.regs.pc + 1)).stackPair p = cpu.regs.stackPair p := by
    cases p <;> rfl
  have hregs : (cpu.step m).cpu.regs =
      { cpu.regs with sp := cpu.regs.sp - 2, pc := cpu.regs.pc + 1 } :=
    regs_of_executed (isAt_iff.1 hpush)
  have hword : Bus.readWord (cpu.step m).bus (cpu.regs.sp - 2) = cpu.regs.stackPair p := by
    rw [bus_of_executed (isAt_iff.1 hpush) nofun, ← hpair]
    exact Registers.readWord_pushWord ..
  have hup : cpu.regs.sp - 2 + 2 = cpu.regs.sp := by grind
  have hnext : cpu.regs.pc + 1 + 1 = cpu.regs.pc + 2 := by grind
  calc (cpu.after m 2).1.regs
    _ = Registers.setStackPair
          { (cpu.step m).cpu.regs with
            sp := (cpu.step m).cpu.regs.sp + 2, pc := (cpu.step m).cpu.regs.pc + 1 }
          q (Bus.readWord (cpu.step m).bus (cpu.step m).cpu.regs.sp) :=
      regs_of_executed (isAt_iff.1 hpop)
    _ = _ := by rw [hregs, hword, hup, hnext]

theorem read_of_popped {p q : StackPair} (hpush : cpu.IsAt m (.push p))
    (hpop : (cpu.step m).cpu.IsAt (cpu.step m).bus (.pop q)) (ha : ¬ Below cpu.regs.sp 2 a) :
    Bus.read (cpu.after m 2).2 a = Bus.read m a := by
  have hsame : (cpu.after m 2).2 = (cpu.step m).bus := bus_of_executed (isAt_iff.1 hpop) nofun
  rw [hsame, bus_of_executed (isAt_iff.1 hpush) nofun]
  exact Registers.read_pushWord_of_not_below ha

end Steps

/-! ## The laws -/

/-- The stack gives back what was put on it, the last first. Words that are pushed one after the
other, as many as memory has room for, are popped in reverse, wherever the stack pointer is, and no
byte but theirs is touched. So calls that are made one inside the other return, the innermost first,
to the instructions after them, with the registers as they were there, if interrupts are disabled or
none is served meanwhile, and the stack does not grow into the code. And a pair of registers that is
pushed and popped into another one is copied to it; of the flags' byte only the high bits exist. -/
theorem stack_lifo :
    (∀ (r : Registers) (m : Flat) (vs : List UInt16), vs.length ≤ 32768 →
      let pushed := r.pushAll m vs
      pushed.1.popAll pushed.2 vs.length = (vs.reverse, r) ∧
      ∀ a, ¬ Below r.sp (2 * vs.length) a → Bus.read pushed.2 a = Bus.read m a) ∧
    (∀ (cpu : Cpu) (m : Flat) (i : Instr) (target : UInt16) (inner : List UInt16),
      let backs := (cpu.regs.pc + i.length) :: inner
      let n := backs.length
      let stack := Below cpu.regs.sp (2 * n)
      Lies m stack cpu.regs.pc i → i.calls? cpu.regs.flags = some target →
      Routine m stack cpu.regs.flags target inner →
      (cpu.Quiet ∨ ∀ k < 2 * n, ∃ i, (cpu.outcomeAfter m k).Executed i) →
        (∀ k < n, ∃ i a,
          (cpu.outcomeAfter m k).Executed i ∧ i.calls? cpu.regs.flags = some a) ∧
        (∀ k, n ≤ k → k < 2 * n → ∃ i,
          (cpu.outcomeAfter m k).Executed i ∧ i.Returns cpu.regs.flags) ∧
        (∀ k (hk : k < n), (cpu.after m (2 * n - k)).1.regs =
          { cpu.regs with pc := backs[k], sp := cpu.regs.sp - 2 * UInt16.ofNat k }) ∧
        ∀ k ≤ 2 * n, ∀ a, ¬ stack a → Bus.read (cpu.after m k).2 a = Bus.read m a) ∧
    ∀ (cpu : Cpu) (m : Flat) (p q : StackPair), cpu.IsAt m (.push p) →
      (cpu.step m).cpu.IsAt (cpu.step m).bus (.pop q) →
        let v := cpu.regs.stackPair p
        let last := cpu.after m 2
        last.1.regs.stackPair q = (if q = .af then v &&& 0xfff0 else v) ∧
        (∀ x, x ≠ q → last.1.regs.stackPair x = cpu.regs.stackPair x) ∧
        last.1.regs.sp = cpu.regs.sp ∧ last.1.regs.pc = cpu.regs.pc + 2 ∧
        ∀ a, ¬ Below cpu.regs.sp 2 a → Bus.read last.2 a = Bus.read m a := by
  refine ⟨fun r m vs hvs => ⟨r.popAll_pushAll m hvs, ?_⟩, ?_, ?_⟩
  · have hnone : Registers.Stacked m r.sp [] := trivial
    exact (Registers.stacked_pushAll hnone (by rw [List.length_nil]; omega)).2
  · intro cpu m i target inner backs n stack hlies hcalls hroutine hundisturbed
    have hnests : Nests (cpu.regs, m) backs := nests_of_call hlies hcalls hroutine
    have hexecutes := hundisturbed.elim hnests.executes id
    have hat (k : Nat) (hk : k ≤ 2 * n) := hnests.after_eq hexecutes hk
    refine ⟨fun k hk => ?_, fun k hk hk' => ?_, fun k hk => ?_, fun k hk a ha => ?_⟩
    · obtain ⟨a, ha⟩ := hnests.calls k hk
      exact ⟨_, a, hnests.executed hexecutes (by omega), ha⟩
    · exact ⟨_, hnests.executed hexecutes hk', hnests.returns k hk hk'⟩
    · rw [hat _ (Nat.sub_le _ _)]
      exact hnests.comes k hk
    · rw [hat k hk]
      exact hnests.keeps k hk a ha
  · intro cpu m p q hpush hpop v last
    have hregs : last.1.regs = _ := regs_of_popped hpush hpop
    refine ⟨?_, fun x hx => ?_, ?_, ?_, fun a ha => read_of_popped hpush hpop ha⟩
    · rw [hregs, Registers.stackPair_setStackPair, if_pos rfl]
    · rw [hregs, Registers.stackPair_setStackPair, if_neg hx.symm]
      cases x <;> rfl
    · rw [hregs]
      cases q <;> rfl
    · rw [hregs]
      cases q <;> rfl

/-- Memory full of returns, with two calls. -/
def twoCalls : Flat := Bus.write (Bus.write (Flat.filled 0xc9) 0x0100 0xef) 0x0028 0xff

theorem read_twoCalls (a : UInt16) : Bus.read twoCalls a =
    if 0x0028 = a then 0xff else if 0x0100 = a then 0xef else 0xc9 := by
  rw [twoCalls, Flat.read_write, Flat.read_write, Flat.read_filled]

/-- An instruction of one byte, away from the stack. -/
theorem lies_twoCalls {a : UInt16} {i : Instr} (hlength : i.length = 1)
    (hencoded : ∀ b1 b2, i.Encoded (Bus.read twoCalls a) b1 b2) (ha : ¬ Below 0xfffe 4 a) :
    Lies twoCalls (Below 0xfffe 4) a i := by
  refine ⟨hencoded _ _, fun k hk => ?_⟩
  obtain rfl : k = 0 := by
    rw [hlength] at hk
    exact Nat.lt_one_iff.1 hk
  have hfirst : a + UInt16.ofNat 0 = a := by simp
  rwa [hfirst]

theorem isAt_push_bc : (powerUp .dmg).IsAt (program [0xc5, 0xf1]) (.push .bc) :=
  isAt_program rfl rfl rfl (n := 0) (by decide) rfl

/-- The pushed bytes are not those of the next instruction. -/
theorem isAt_pop_af : ((powerUp .dmg).step (program [0xc5, 0xf1])).cpu.IsAt
    ((powerUp .dmg).step (program [0xc5, 0xf1])).bus (.pop .af) := by
  have hexecuted := isAt_iff.1 isAt_push_bc
  have hafter : ((powerUp .dmg).step (program [0xc5, 0xf1])).cpu.Quiet := by
    have hquiet : (powerUp .dmg).Quiet := ⟨rfl, rfl, rfl⟩
    refine hquiet.step ?_
    rw [fetch_of_executed hexecuted]
    rfl
  have hpc : ((powerUp .dmg).step (program [0xc5, 0xf1])).cpu.regs.pc = 0x0101 := by
    rw [regs_of_executed hexecuted]
    rfl
  have hclear : ¬ Below ((powerUp .dmg).regs.goto 0x0101).sp 2 0x0101 := by decide
  have hnext : Bus.read ((powerUp .dmg).step (program [0xc5, 0xf1])).bus 0x0101 = 0xf1 := by
    rw [bus_of_executed hexecuted nofun]
    exact (Registers.read_pushWord_of_not_below hclear).trans
      (read_program [0xc5, 0xf1] 1 (by decide))
  refine ⟨?_, by simp [hafter.ime], .inl hafter.awake⟩
  rw [hpc, hnext]
  exact rfl

/-- Words that are pushed across the beginning of memory come back in reverse; two calls, the one
inside the other, return; and what was in `BC` comes back as `A` and the flags. -/
theorem stack_lifo_nested :
    (let r : Registers := { sp := 0x0001 }
      let pushed := r.pushAll twoCalls [0x1234, 0x5678]
      pushed.1.popAll pushed.2 2 = ([0x5678, 0x1234], r)) ∧
    ((powerUp .dmg).after twoCalls 3).1.regs =
      { Registers.powerUp .dmg with pc := 0x0029, sp := 0xfffc } ∧
    ((powerUp .dmg).after twoCalls 4).1.regs =
      { Registers.powerUp .dmg with pc := 0x0101, sp := 0xfffe } ∧
    ((powerUp .dmg).after (program [0xc5, 0xf1]) 2).1.regs.stackPair .af = 0x0010 := by
  obtain ⟨hwords, hcalls, hpairs⟩ := stack_lifo
  have hret (a : UInt16) (ha : Bus.read twoCalls a = 0xc9) (hclear : ¬ Below 0xfffe 4 a) :
      Lies twoCalls (Below 0xfffe 4) a (.ret none) :=
    lies_twoCalls rfl (fun _ _ => congrArg UInt8.toNat ha) hclear
  have houter : Lies twoCalls (Below 0xfffe 4) 0x0100 (.restart 0x28) :=
    lies_twoCalls rfl (fun _ _ => by rw [read_twoCalls]; exact ⟨rfl, rfl⟩) (by decide)
  have hinner : Routine twoCalls (Below 0xfffe 4) (Registers.powerUp .dmg).flags 0x0028 [0x0029] :=
    .calls (i := .restart 0x38)
      (lies_twoCalls rfl (fun _ _ => by rw [read_twoCalls]; exact ⟨rfl, rfl⟩) (by decide)) rfl
      (.returns (hret 0x0038 (by rw [read_twoCalls]; rfl) (by decide)) rfl)
      (hret 0x0029 (by rw [read_twoCalls]; rfl) (by decide)) rfl
  obtain ⟨-, -, hcomes, -⟩ := hcalls (powerUp .dmg) twoCalls (.restart 0x28) 0x0028 [0x0029]
    houter rfl hinner (.inl ⟨rfl, rfl, rfl⟩)
  obtain ⟨hpair, -⟩ := hpairs (powerUp .dmg) (program [0xc5, 0xf1]) .bc .af isAt_push_bc isAt_pop_af
  refine ⟨(hwords { sp := 0x0001 } twoCalls [0x1234, 0x5678] (by decide)).1, ?_, ?_, ?_⟩
  · exact hcomes 1 (by decide)
  · exact hcomes 0 (by decide)
  · exact hpair

end Cpu

end GameBoy
