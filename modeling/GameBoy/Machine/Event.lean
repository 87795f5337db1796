import GameBoy.Interrupt
import GameBoy.Notice.Basic

/-!
# Watching a machine

A watcher is told what the processor does and when a picture is complete. It counts the events, and
may keep them too; instructions and interrupts are noted at the lowest level.

* `Event`: what a watcher is told, and `Event.notice?` what is noted about it.
* `Watcher.see`: one more event.
* `Watcher.events_see`: a watcher that records keeps every event, in order.
-/

namespace GameBoy

/-- What a watcher is told. -/
inductive Event
  /-- An instruction was executed. -/
  | instruction (address : UInt16) (opcode : UInt8)
  /-- An interrupt was served. -/
  | interrupt (vector : UInt16)
  /-- A picture was completed. -/
  | frame
deriving DecidableEq

/-- How often each kind of event happened. -/
structure Tally where
  instructions : Nat := 0
  interrupts : Nat := 0
  frames : Nat := 0
deriving DecidableEq

/-- One more event. -/
def Tally.count (t : Tally) (e : Event) : Tally :=
  match e with
  | .instruction .. => { t with instructions := t.instructions + 1 }
  | .interrupt _ => { t with interrupts := t.interrupts + 1 }
  | .frame => { t with frames := t.frames + 1 }

/-- What is noted about an event. -/
def Event.notice? : Event → Option Notice
  | .instruction address opcode => some (.instruction address opcode)
  | .interrupt vector => some (.interrupt vector)
  | .frame => none

/-- One who watches a machine. -/
structure Watcher where
  /-- How many events there were. -/
  tally : Tally := {}
  /-- Whether the events themselves are kept. -/
  records : Bool := false
  /-- The kept events, the last one first. -/
  latest : List Event := []

namespace Watcher

/-- A watcher that keeps the events. -/
def recorder : Watcher := { records := true }

/-- The watcher after an event. -/
def see (w : Watcher) (e : Event) : Watcher :=
  { w with
    tally := w.tally.count e
    latest := if w.records then e :: w.latest else w.latest }

/-- The kept events, the first one first. -/
def events (w : Watcher) : List Event := w.latest.reverse

/-- The watcher without its kept events. -/
def clear (w : Watcher) : Watcher := { w with latest := [] }

/-- A watcher that records keeps every event, in order. -/
theorem events_see (w : Watcher) (e : Event) :
    (w.see e).events = if w.records then w.events ++ [e] else w.events := by
  unfold see events
  split <;> simp

end Watcher

end GameBoy
