import Graft.Batch
import Graft.Config.Decode
import Graft.Log
import Graft.Proofs.Banner.Removed
import Graft.Proofs.Edit.Binders
import Graft.Proofs.Edit.Declared
import Graft.Proofs.Edit.Hollow
import Graft.Proofs.Edit.Initial
import Graft.Proofs.Edit.Recount
import Graft.Proofs.Edit.Suited
import Graft.Proofs.Origin.Derivation
import Graft.Proofs.Origin.Gate
import Graft.Proofs.Origin.Sole
import Graft.Proofs.Plan.Effects
import Graft.Proofs.Round.Ends
import Graft.Proofs.Round.Roots
import Graft.Proofs.Transform.Again
import Graft.Proofs.Transform.Order
import Graft.Proofs.Transform.Renamed
