import GameBoy.Proofs.Cpu.Bus
import GameBoy.Proofs.Cpu.Step
import Mathlib.Data.List.Nodup

/-!
# The writes of a step

A step changes its bus by its writes, in their order, or it asks for the other clock rate; no step
does both.

* `Bus.writeAll`: the bus after some writes.
* `Cpu.bus_step`: the bus after a step.
* `Cpu.writes_of_executed`, `Cpu.writes_of_highest`: what an instruction and a service write.
* `Cpu.writes_of_served`: service first takes the request back.
* `Cpu.count_writes_le_one`: a step writes to each other address at most once.
-/

namespace GameBoy

variable {β : Type} [Bus β]

/-- The bus after some writes, one after the other. -/
def Bus.writeAll (b : β) (ws : List (UInt16 × UInt8)) : β :=
  ws.foldl (fun b w => Bus.write b w.1 w.2) b

theorem Bus.writeAll_append (b : β) (ws xs : List (UInt16 × UInt8)) :
    Bus.writeAll b (ws ++ xs) = Bus.writeAll (Bus.writeAll b ws) xs :=
  List.foldl_append

/-- The bus is the one that the noted writes leave. -/
def Traced.Faithful (b : β) (t : Traced β) : Prop := t.bus = Bus.writeAll b t.writes

namespace Cpu

theorem faithful_write (b : β) (t : Traced β) (a : UInt16) (v : UInt8) (h : t.Faithful b) :
    (Bus.write t a v).Faithful b := by
  rw [Traced.Faithful, Traced.bus_write, Traced.writes_write, Bus.writeAll_append, ← h]
  rfl

/-- The writes of a step, or the request for the other clock rate, are all that a step does to its
bus. -/
theorem bus_step (cpu : Cpu) (b : β) :
    (cpu.step b).bus = Bus.writeAll b (cpu.writes b) ∨
      cpu.writes b = [] ∧ (cpu.step b).bus = (Bus.switchRate b).2 := by
  have hstart : (Traced.mk b []).Faithful b := rfl
  have hbus : (cpu.step b).bus = (cpu.step (Traced.mk b [])).bus.bus :=
    congrArg Stepped.bus (cpu.step_traced (Traced.mk b []))
  rw [hbus, writes]
  rcases step_cases cpu (Traced.mk b []) with ⟨-, -, hstep⟩ | ⟨i, -, -, hstep⟩ | ⟨i, -, -, -, hstep⟩
  · exact .inl (by rw [hstep]; rfl)
  · rw [hstep]
    exact .inl (serve_induction (faithful_write b) cpu.awake i hstart)
  · rw [hstep]
    cases i with
    | stop => exact .inr ⟨rfl, rfl⟩
    | _ => exact .inl (Instr.operate_induction (faithful_write b) _ _ hstart)

/-- A step that executes an instruction writes what the instruction writes. -/
theorem writes_of_executed {cpu : Cpu} {bus : β} (hawake : cpu.halted = false ∨ pending bus ≠ 0)
    (hnone : ¬ (cpu.ime = true ∧ pending bus ≠ 0)) {i : Instr} (hi : fetch bus cpu.regs.pc = i) :
    cpu.writes bus =
      (i.operate (cpu.regs.goto (cpu.regs.pc + i.length)) (Traced.mk bus [])).2.writes := by
  have hawake : cpu.halted = false ∨ pending (Traced.mk bus []) ≠ 0 := hawake
  have hstep := step_executed hawake hnone hi
  rw [writes, hstep]
  cases i <;> rfl

/-- A step that serves an interrupt takes the request back and pushes the address in `pc`. -/
theorem writes_of_highest {cpu : Cpu} {bus : β} {i : Interrupt} (hime : cpu.ime = true)
    (hi : Interrupt.highest? (pending bus) = some i) :
    cpu.writes bus =
      [(0xff0f, Bus.read bus 0xff0f &&& ~~~i.mask), (cpu.regs.sp - 1, highByte cpu.regs.pc),
        (cpu.regs.sp - 2, lowByte cpu.regs.pc)] := by
  have hi : Interrupt.highest? (pending (Traced.mk bus [])) = some i := hi
  rw [writes, step_served hime hi]
  rfl

/-- The service of an interrupt first takes its request back. -/
theorem writes_of_served {cpu : Cpu} {b : β} {i : Interrupt}
    (h : (cpu.step b).outcome = .served i) :
    ∃ pushes, cpu.writes b = (0xff0f, Bus.read b 0xff0f &&& ~~~i.mask) :: pushes := by
  rw [← cpu.outcome_traced b] at h
  rw [writes, step_of_served h]
  exact ⟨_, rfl⟩

end Cpu

/-! ## Each address once -/

/-- The writes since `before` have different addresses. -/
def Traced.Once (before : List (UInt16 × UInt8)) (t : Traced β) : Prop :=
  ∃ ws, t.writes = before ++ ws ∧ (ws.map Prod.fst).Nodup

omit [Bus β] in
theorem Traced.once_self (t : Traced β) : t.Once t.writes :=
  ⟨[], (List.append_nil _).symm, List.nodup_nil⟩

theorem Traced.once_write (t : Traced β) (a : UInt16) (v : UInt8) :
    (Bus.write t a v).Once t.writes :=
  ⟨[(a, v)], rfl, List.nodup_singleton a⟩

theorem Traced.once_write_write (t : Traced β) {a c : UInt16} (h : a ≠ c) (v w : UInt8) :
    (Bus.write (Bus.write t a v) c w).Once t.writes := by
  refine ⟨[(a, v), (c, w)], List.append_assoc .., ?_⟩
  simpa using h

theorem Operand.once_store (x : Operand) (v : UInt8) (r : Registers) (t : Traced β) :
    (x.store v r t).2.Once t.writes := by
  cases x with
  | reg y => exact t.once_self
  | atHL => exact t.once_write _ v

theorem Registers.once_callTo (r : Registers) (a : UInt16) (t : Traced β) :
    (r.callTo a t).2.Once t.writes := by
  exact t.once_write_write (by simp) _ _

theorem Instr.once_operate (i : Instr) (r : Registers) (t : Traced β) :
    (i.operate r t).2.Once t.writes := by
  cases i with
  | load | loadByte | inc | dec | shift | clearBit | setBit => exact Operand.once_store _ _ _ t
  | storeA | storeAAt | storeAHigh | storeAHighC => exact t.once_write _ _
  | storeSP a => exact t.once_write_write (by simp) _ _
  | push p => exact t.once_write_write (by simp) _ _
  | restart a => exact r.once_callTo a t
  | call c a =>
    simp only [Instr.operate]
    split
    · exact r.once_callTo a t
    · exact t.once_self
  | _ => exact t.once_self

namespace Cpu

/-- A step writes to each address at most once. Only the register of the requests may be written
again, when an interrupt is served while the stack lies there. -/
theorem count_writes_le_one (cpu : Cpu) (b : β) {a : UInt16} (ha : a ≠ 0xff0f) :
    ((cpu.writes b).map Prod.fst).count a ≤ 1 := by
  have hcount : ∀ {before : List (UInt16 × UInt8)} {t : Traced β}, t.Once before →
      (before.map Prod.fst).count a = 0 → (t.writes.map Prod.fst).count a ≤ 1 := by
    rintro before t ⟨ws, hws, hnodup⟩ hbefore
    rw [hws, List.map_append, List.count_append, hbefore, Nat.zero_add]
    exact List.nodup_iff_count_le_one.1 hnodup a
  rw [writes]
  rcases step_cases cpu (Traced.mk b []) with ⟨-, -, hstep⟩ | ⟨i, -, -, hstep⟩ | ⟨i, -, -, -, hstep⟩
  · rw [hstep]
    exact Nat.zero_le 1
  · rw [hstep]
    refine hcount (cpu.awake.regs.once_callTo i.vector _) ?_
    exact List.count_eq_zero.2 (by simpa using ha)
  · rw [hstep]
    cases i with
    | stop => exact Nat.zero_le 1
    | _ => exact hcount (Instr.once_operate _ _ _) rfl

end Cpu

end GameBoy
