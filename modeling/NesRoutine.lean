import NesRoutine.Compiler.Recipe
import NesRoutine.Emulator.Text
import NesRoutine.Main
import NesRoutine.Proofs.Discovery.BreadthFirst
import NesRoutine.Proofs.Layout.Independence
import NesRoutine.Proofs.Mapping
import NesRoutine.Proofs.Persistence
import NesRoutine.Proofs.Refinement
import NesRoutine.Proofs.Nesting
import NesRoutine.Proofs.Transparency
import NesRoutine.Proofs.StatusBits
import NesRoutine.Proofs.FrameTiming.Counters
import NesRoutine.Proofs.Accounting
import NesRoutine.Proofs.Canonical
import NesRoutine.Proofs.CallClosure
import NesRoutine.Proofs.CallCoverage
import NesRoutine.Proofs.StepFailure
import NesRoutine.Proofs.Checksum
import NesRoutine.Proofs.PatchedImage
import NesRoutine.Proofs.MemoryMap
import NesRoutine.Proofs.PictureTraffic
import NesRoutine.Proofs.SerialPorts
import NesRoutine.Proofs.Layout.Confinement
import NesRoutine.Proofs.Loading
import NesRoutine.Proofs.Artifact.Truncation
import NesRoutine.Proofs.Artifact.Header
import NesRoutine.Proofs.Numerals
import NesRoutine.Proofs.Site
import NesRoutine.Proofs.CarryChain
import NesRoutine.Proofs.RotateChain
import NesRoutine.Proofs.DataPort
import NesRoutine.Proofs.CartridgeImage
import NesRoutine.Proofs.CyclicOrder
