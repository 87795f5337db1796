import GameBoy.Machine.Basic

/-!
# Sessions

A session holds at most one machine. Operations on the machine do nothing, or answer that there is
nothing, while there is none.

* `Session.create`: replaces the machine by a new one; after a failure there is none.
* `Session.copyShades`: the shades of the last complete picture go into a buffer, as many as fit.
* `Session.notices`: everything reported, by machines of earlier times too.
-/

namespace GameBoy

/-- A machine, or none, and what was reported before it was built. -/
structure Session where
  machine? : Option Machine := none
  journal : Journal := {}

namespace Session

/-- Gives up the machine, keeping its notices. -/
def destroy (s : Session) : Session :=
  match s.machine? with
  | none => s
  | some m => { machine? := none, journal := m.board.journal }

/-- Builds a machine with the cartridge that an image describes, in place of the one there was.
Without an image, or with one that is refused, there is no machine. -/
def create (s : Session) (image? : Option ByteArray) : Session :=
  let s := s.destroy
  match image? with
  | none => { s with journal := s.journal.add (.creationFailed .noImage) }
  | some image =>
    match Machine.powerUp image {} s.journal with
    | .ok m => { machine? := some m, journal := s.journal.clear }
    | .error e => { s with journal := s.journal.add (.creationFailed (.refused e)) }

/-- Runs the machine until a picture is complete or its time is over: which of the two. -/
def runFrame (s : Session) : Bool × Session :=
  match s.machine? with
  | none => (false, s)
  | some m =>
    let ran := m.runFrame
    (ran.1, { s with machine? := some ran.2 })

/-- Takes the complete picture: whether it is new since the last time. -/
def takeFrame (s : Session) : Bool × Session :=
  match s.machine? with
  | none => (false, s)
  | some m =>
    let taken := m.takeFrame
    (taken.1, { s with machine? := some taken.2 })

/-- The last complete picture. -/
def picture? (s : Session) : Option Picture := s.machine?.map Machine.picture

/-- The shades of the last complete picture in reading order, as bytes. -/
def shadeBytes (p : Picture) : List UInt8 := p.shades.map fun c : Color => UInt8.ofNat c.val

/-- Copies the shades of the last complete picture to the beginning of a buffer, as many as fit: how
many, and the buffer afterwards. Without a machine or a buffer nothing is copied. -/
def copyShades (s : Session) (buffer? : Option (List UInt8)) : Nat × Option (List UInt8) :=
  match s.picture?, buffer? with
  | some p, some buffer =>
    let bytes := shadeBytes p
    let n := min bytes.length buffer.length
    (n, some (bytes.take n ++ buffer.drop n))
  | _, _ => (0, buffer?)

/-- Button `i` goes down. -/
def press (s : Session) (i : UInt8) : Session :=
  { s with machine? := s.machine?.map (·.press i) }

/-- Button `i` goes up. -/
def release (s : Session) (i : UInt8) : Session :=
  { s with machine? := s.machine?.map (·.release i) }

/-- What was reported so far. -/
def notices (s : Session) : List Notice :=
  match s.machine? with
  | none => s.journal.notices
  | some m => m.notices

/-- Forgets what was reported so far. -/
def clearNotices (s : Session) : Session :=
  { journal := s.journal.clear, machine? := s.machine?.map Machine.clearNotices }

end Session

end GameBoy
