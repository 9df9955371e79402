import LittleComputer.Gallery
import LittleComputer.Machine.Catalog
import LittleComputer.Machine.Effect
import LittleComputer.Main
import LittleComputer.Proofs.AbandonedWait
import LittleComputer.Proofs.Abreast
import LittleComputer.Proofs.ConditionCodes
import LittleComputer.Proofs.CycleLimit
import LittleComputer.Proofs.ExitStatus
import LittleComputer.Proofs.FailingOutput
import LittleComputer.Proofs.FatalWords
import LittleComputer.Proofs.Interchange
import LittleComputer.Proofs.InterruptTiming
import LittleComputer.Proofs.Lifecycle
import LittleComputer.Proofs.LimitedRun
import LittleComputer.Proofs.Loading
import LittleComputer.Proofs.Observation
import LittleComputer.Proofs.OutputStream
import LittleComputer.Proofs.Refinement
import LittleComputer.Proofs.Session
import LittleComputer.Proofs.StepFailures
import LittleComputer.Proofs.Stepping
import LittleComputer.Proofs.Tracing
import LittleComputer.Proofs.HeldOutput
import LittleComputer.Proofs.InputQueue
import LittleComputer.Proofs.StringBounds
import LittleComputer.Proofs.StringContents
import LittleComputer.Proofs.GalleryAgreement
import LittleComputer.Proofs.MissingKey
import LittleComputer.Proofs.OneKey
import LittleComputer.Proofs.Storage
import LittleComputer.Proofs.ImageFormat
import LittleComputer.Proofs.LoadFailures
import LittleComputer.Proofs.UnreadableFiles
import LittleComputer.Proofs.RawMode
import LittleComputer.Proofs.Decoding
