import StackComputer.Main
import StackComputer.Proofs.Numerals
import StackComputer.Proofs.JsonText
import StackComputer.Proofs.KeyMaps
import StackComputer.Proofs.FileFormat
import StackComputer.Proofs.Restoration
import StackComputer.Proofs.Files
import StackComputer.Proofs.Durability
import StackComputer.Proofs.Identifiers
import StackComputer.Proofs.Session
import StackComputer.Proofs.Steps
import StackComputer.Proofs.ControlFlow
import StackComputer.Proofs.Lockstep
import StackComputer.Proofs.Growth
import StackComputer.Proofs.Allocation
import StackComputer.Proofs.Ranges
import StackComputer.Proofs.Grammar
import StackComputer.Proofs.Disassembly
import StackComputer.Proofs.Reloading
import StackComputer.Proofs.Cursor
import StackComputer.Proofs.StraightLine
import StackComputer.Proofs.Independence
import StackComputer.Proofs.Footprint
import StackComputer.Proofs.Faults
import StackComputer.Proofs.Subroutines
import StackComputer.Proofs.Repetition
import StackComputer.Proofs.Forward
import StackComputer.Proofs.LineByLine
import StackComputer.Proofs.ByteOrder
import StackComputer.Proofs.Decoding
import StackComputer.Proofs.Canonical
import StackComputer.Proofs.Filling
import StackComputer.Proofs.Routes
import StackComputer.Proofs.BuildLog
import StackComputer.Proofs.RunLog
