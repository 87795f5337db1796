import GameBoy.Memory.Bus

/-!
# Observed buses

`Traced β` is a bus that passes everything on to a bus `β` and notes the writes in their order.
-/

namespace GameBoy

/-- A bus with the list of the writes made to it, the first one first. -/
structure Traced (β : Type) where
  /-- The bus that answers. -/
  bus : β
  /-- Address and byte of each write so far. -/
  writes : List (UInt16 × UInt8) := []

namespace Traced

variable {β : Type} [Bus β]

instance : Bus (Traced β) where
  read t a := Bus.read t.bus a
  write t a v := { bus := Bus.write t.bus a v, writes := t.writes ++ [(a, v)] }
  switchRate t := ((Bus.switchRate t.bus).1, { t with bus := (Bus.switchRate t.bus).2 })

@[simp] theorem writes_write (t : Traced β) (a : UInt16) (v : UInt8) :
    (Bus.write t a v).writes = t.writes ++ [(a, v)] := rfl

@[simp] theorem bus_write (t : Traced β) (a : UInt16) (v : UInt8) :
    (Bus.write t a v).bus = Bus.write t.bus a v := rfl

end Traced

end GameBoy
