import GameBoy.Notice.Basic

/-!
# The journal

Notices in the order in which they were made. Those of the lowest level are many, and are kept only
when the journal is told to.

* `Journal.add`, `Journal.addAll`: a notice that is not wanted leaves the journal as it was.
* `Journal.notices`: what was kept, in order.
-/

namespace GameBoy

/-- The notices made so far. -/
structure Journal where
  /-- The notices, the last one first. -/
  latest : List Notice := []
  /-- Notices of less important levels are not kept. -/
  least : Level := .debug

namespace Journal

/-- Keeps a notice, if its level is wanted. -/
def add (j : Journal) (n : Notice) : Journal :=
  if n.level.within j.least then { j with latest := n :: j.latest } else j

/-- Keeps a notice, if there is one. -/
def add? (j : Journal) (n? : Option Notice) : Journal :=
  match n? with
  | none => j
  | some n => j.add n

/-- Keeps several notices in their order. -/
def addAll (j : Journal) (ns : List Notice) : Journal := ns.foldl add j

/-- The notices, the first one first. -/
def notices (j : Journal) : List Notice := j.latest.reverse

/-- The journal without its notices. -/
def clear (j : Journal) : Journal := { j with latest := [] }

end Journal

end GameBoy
