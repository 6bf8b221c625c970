import EightBit.Directory
import EightBit.Flags
import EightBit.Glyph
import EightBit.Glyph.Catalog
import EightBit.Listing
import EightBit.Machine
import EightBit.Machine.Command
import EightBit.Main
import EightBit.Memory
import EightBit.Monitor
import EightBit.Monitor.Dump
import EightBit.Mos6502.Lister
import EightBit.Mos6502.Opcode
import EightBit.Mos6502.State
import EightBit.Mos6502.Step
import EightBit.Numeral
import EightBit.Options
import EightBit.Picture
import EightBit.Picture.Deflate
import EightBit.Picture.Png
import EightBit.Processor
import EightBit.Proofs.Layout
import EightBit.Proofs.Mos6502.Boundary
import EightBit.Proofs.Mos6502.Control
import EightBit.Proofs.Quantum
import EightBit.Proofs.Ram
import EightBit.Proofs.Snapshot
import EightBit.Proofs.Stream
import EightBit.Proofs.Turns
import EightBit.Proofs.Word
import EightBit.Proofs.Z80.Boundary
import EightBit.Proofs.Z80.Control
import EightBit.Register
import EightBit.Screen
import EightBit.Session
import EightBit.Stream
import EightBit.Stream.Field
import EightBit.System
import EightBit.System.Demo
import EightBit.Text
import EightBit.Text.Visible
import EightBit.Word
import EightBit.Z80.Arithmetic
import EightBit.Z80.Instruction
import EightBit.Z80.Lister
import EightBit.Z80.State
import EightBit.Z80.Step
import EightBit.Proofs.Cells
import EightBit.Proofs.Visibility
import EightBit.Proofs.Commands
import EightBit.Proofs.Pacing
import EightBit.Proofs.History
import EightBit.Proofs.Drift
import EightBit.Proofs.Traces
import EightBit.Proofs.Lines
import EightBit.Proofs.RoundTrip
import EightBit.Proofs.Trajectory
import EightBit.Proofs.Delivery
import EightBit.Proofs.Flags
import EightBit.Proofs.Multibyte
import EightBit.Proofs.Format
import EightBit.Proofs.Restore
import EightBit.Proofs.Ports
import EightBit.Proofs.Mos6502.Footprint
import EightBit.Proofs.Z80.Footprint
import EightBit.Proofs.Mailbox
import EightBit.Proofs.Decimal
import EightBit.Proofs.Z80.Arithmetic
import EightBit.Proofs.Z80.Decimal
import EightBit.Proofs.Mos6502.Interrupts
import EightBit.Proofs.Register
import EightBit.Proofs.Z80.Interrupts
import EightBit.Proofs.Z80.Returns
import EightBit.Proofs.Z80.Blocks
import EightBit.Proofs.Z80.Search
import EightBit.Proofs.Z80.Transfer
import EightBit.Proofs.Z80.Indexes
import EightBit.Proofs.Z80.Prefixes
import EightBit.Proofs.Tiling
import EightBit.Proofs.Stacks
import EightBit.Proofs.Mos6502.Stores
import EightBit.Proofs.Mos6502.Status
import EightBit.Proofs.Z80.Flags
import EightBit.Proofs.Z80.Refresh
import EightBit.Proofs.Z80.Modes
import EightBit.Proofs.Mos6502.Break
import EightBit.Proofs.Numeral
import EightBit.Proofs.Truncation
import EightBit.Proofs.Editing
import EightBit.Proofs.BitRows
import EightBit.Proofs.Words
import EightBit.Proofs.Printing
import EightBit.Proofs.Evaluation
import EightBit.Proofs.Retyping
import EightBit.Proofs.Refusals
import EightBit.Proofs.Breakpoints
import EightBit.Proofs.Drawing
import EightBit.Proofs.Dumps
import EightBit.Proofs.Paging
import EightBit.Proofs.Crashes
import EightBit.Proofs.Bounds
import EightBit.Proofs.Selections
import EightBit.Proofs.Encodings
import EightBit.Proofs.Lookups
