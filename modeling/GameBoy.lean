import GameBoy.Memory.Traced
import GameBoy.Memory.Flat
import GameBoy.Notice.Console
import GameBoy.Session
import GameBoy.Proofs.Board.Passing
import GameBoy.Proofs.Machine.Time
import GameBoy.Proofs.Checked.Machine
import GameBoy.Proofs.Video.Interrupted
import GameBoy.Proofs.Cpu.Enabling
import GameBoy.Proofs.Cpu.Service
import GameBoy.Proofs.Cpu.Writes
import GameBoy.Proofs.Video.Conditions
import GameBoy.Proofs.Board.Requests
import GameBoy.Proofs.Machine.Requests
import GameBoy.Proofs.Machine.Ticks
import GameBoy.Proofs.Video.Coherent
import GameBoy.Proofs.Video.Lines
import GameBoy.Proofs.Board.Blocks
import GameBoy.Proofs.Board.Paced
import GameBoy.Proofs.Machine.Transfers
import GameBoy.Proofs.Machine.Paced
import GameBoy.Proofs.Cartridge.Banks
import GameBoy.Proofs.Cartridge.Memory
import GameBoy.Proofs.Machine.Frames
import GameBoy.Proofs.Machine.Monochrome
import GameBoy.Proofs.Board.Cells
import GameBoy.Proofs.Machine.Halted
import GameBoy.Proofs.Cartridge.Clock
import GameBoy.Proofs.Video.Window
import GameBoy.Proofs.Machine.Deliveries
import GameBoy.Proofs.Cpu.Encoding
import GameBoy.Proofs.Cpu.Stores
import GameBoy.Proofs.Cpu.Flags
import GameBoy.Proofs.Video.Sprites
import GameBoy.Proofs.Board.General
import GameBoy.Proofs.Board.SpriteCopy
import GameBoy.Proofs.Timer
import GameBoy.Proofs.Cartridge.Calendar
import GameBoy.Proofs.Cpu.Decimal
import GameBoy.Proofs.Cartridge.Latch
import GameBoy.Proofs.Cartridge.Loading
import GameBoy.Proofs.Cpu.Operands
import GameBoy.Proofs.Cpu.Wide
import GameBoy.Proofs.Cpu.Stack
import GameBoy.Proofs.Machine.Buttons
import GameBoy.Proofs.Machine.Watched
import GameBoy.Proofs.Board.Shown
import GameBoy.Proofs.Session
import GameBoy.Proofs.Video.Colors
