import GameBoy.Cartridge.LoadError
import GameBoy.Model
import GameBoy.Speed
import GameBoy.Transfer

/-!
# Notices

What the machine reports while it works. A notice says what happened; its level says how much it
matters, and its message is the text that a person reads.
-/

namespace GameBoy

/-- How much a notice matters, the most important first. -/
inductive Level
  | error
  | warn
  | info
  | debug
  | trace
deriving DecidableEq

namespace Level

/-- The position of a level; less important levels have higher positions. -/
def rank : Level → Nat
  | .error => 1
  | .warn => 2
  | .info => 3
  | .debug => 4
  | .trace => 5

/-- Whether a notice of this level is wanted by one who asks for `least` and everything above. -/
def within (l least : Level) : Bool := l.rank ≤ least.rank

/-- The level in capitals. -/
def name : Level → String
  | .error => "ERROR"
  | .warn => "WARN"
  | .info => "INFO"
  | .debug => "DEBUG"
  | .trace => "TRACE"

end Level

/-- What the machine reports. -/
inductive Notice
  /-- The title in a cartridge's header. -/
  | cartridgeTitle (title : String)
  /-- What a cartridge contains; the sizes are in KiB. -/
  | cartridgeContents (kind : String) (rom ram : Nat)
  /-- The header's checksum does not fit its bytes. -/
  | wrongChecksum
  /-- The header's logo is not the expected one. -/
  | wrongLogo
  /-- The model that the machine was built as. -/
  | modelChosen (model : Model)
  /-- The processor met an opcode without a meaning. -/
  | illegalOpcode (opcode : UInt8) (address : UInt16)
  /-- The display was switched off while it drew a line. -/
  | displayOff (line : Nat)
  /-- The display was switched on. -/
  | displayOn
  /-- A transfer to video memory began. -/
  | transferStarted (t : Transfer)
  /-- A paced transfer was stopped by the program. -/
  | transferStopped (t : Transfer)
  /-- A transfer copied its last block. -/
  | transferFinished (t : Transfer)
  /-- The clock rate changed. -/
  | rateChanged (r : Rate)
  /-- A button was named that does not exist. -/
  | unknownButton (i : UInt8)
  /-- An instruction was executed. -/
  | instruction (address : UInt16) (opcode : UInt8)
  /-- An interrupt was served. -/
  | interrupt (vector : UInt16)
  /-- A machine could not be built. -/
  | creationFailed (e : CreationError)

namespace Notice

/-- How much a notice matters. -/
def level : Notice → Level
  | .creationFailed _ => .error
  | .wrongChecksum | .wrongLogo | .illegalOpcode .. => .warn
  | .cartridgeTitle _ | .cartridgeContents .. | .modelChosen _ => .info
  | .displayOff _ | .displayOn | .transferStarted _ | .transferStopped _ | .transferFinished _
  | .rateChanged _ | .unknownButton _ => .debug
  | .instruction .. | .interrupt _ => .trace

/-- The text of a notice. -/
def message : Notice → String
  | .cartridgeTitle title => "Cartridge title: " ++ title
  | .cartridgeContents kind rom ram =>
    "Cartridge type: " ++ kind ++ ", rom: " ++ toString rom ++ " KiB, ram: " ++ toString ram ++
      " KiB"
  | .wrongChecksum => "Cartridge's header checksum is incorrect"
  | .wrongLogo => "Nintendo logo is incorrect"
  | .modelChosen model => "Hardware mode: " ++ model.name
  | .illegalOpcode opcode address =>
    "Illegal opcode " ++ byteLiteral opcode ++ " at " ++ wordLiteral address
  | .displayOff line => "LCD off at LY " ++ toString line
  | .displayOn => "LCD on"
  | .transferStarted t => "DMA started: " ++ t.text
  | .transferStopped t => "HDMA stopped: " ++ t.text
  | .transferFinished t => "DMA finished: " ++ t.text
  | .rateChanged r => "Switch to " ++ r.name ++ " speed"
  | .unknownButton i => "Ignore unknown button " ++ toString i.toNat
  | .instruction address opcode => wordHex address ++ ": " ++ byteHex opcode
  | .interrupt vector => "Interrupt -> " ++ wordHex vector
  | .creationFailed e => "Create gameboy failed: " ++ e.message

/-- The level and the text on one line. -/
def line (n : Notice) : String := n.level.name ++ " " ++ n.message

end Notice

end GameBoy
