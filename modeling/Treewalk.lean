import Treewalk.Directory
import Treewalk.Main
import Treewalk.Proofs.ForLoop
import Treewalk.Proofs.Names
import Treewalk.Proofs.ReturnSignal
import Treewalk.Proofs.BlockRecovery
import Treewalk.Proofs.Layout
import Treewalk.Proofs.DiagnosticPlaces
import Treewalk.Proofs.Pieces
import Treewalk.Proofs.FirstFault
import Treewalk.Proofs.OperatorFaults
import Treewalk.Proofs.DescentTotal
import Treewalk.Proofs.FaultCauses
import Treewalk.Proofs.FullSink
import Treewalk.Proofs.Locality
import Treewalk.Proofs.Rescanning
import Treewalk.Proofs.RejectedSources
import Treewalk.Proofs.Groups
import Treewalk.Proofs.Identities
import Treewalk.Proofs.NearestBinding
import Treewalk.Proofs.Prompt
import Treewalk.Proofs.TreeText
import Treewalk.Proofs.AcceptedArguments
import Treewalk.Proofs.ErrorOrder
