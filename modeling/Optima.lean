import Optima.Main
import Optima.Proofs.Assignment.Termination
import Optima.Proofs.Assignment.Lines
import Optima.Proofs.Simplex.Infeasibility
import Optima.Proofs.Simplex.Unboundedness
import Optima.Proofs.Transport.Termination
import Optima.Proofs.Simplex.Agreement
import Optima.Proofs.Simplex.Feasibility
import Optima.Proofs.Simplex.Pivots
import Optima.Proofs.Simplex.Termination
import Optima.Proofs.Simplex.Substitution
import Optima.Proofs.Simplex.Invariance
import Optima.Proofs.Simplex.Representation
import Optima.Proofs.Simplex.Reflection
import Optima.Proofs.Transport.Forest
import Optima.Proofs.Transport.Independence
import Optima.Proofs.Transport.Shortfall
import Optima.Proofs.Transport.Rounds
import Optima.Proofs.Linear.Format
import Optima.Proofs.Simplex.Entering
import Optima.Proofs.Transport.Moves
import Optima.Proofs.Transport.Restart
import Optima.Proofs.Linear.Numbering
import Optima.Proofs.Transport.LoopSearch
import Optima.Proofs.Transport.Northwest
import Optima.Proofs.Simplex.Progress
import Optima.Proofs.Transport.Dummies
import Optima.Proofs.Assignment.Negation
import Optima.Proofs.Linear.Sums
import Optima.Proofs.Simplex.Equations
import Optima.Proofs.PenaltyOrder
import Optima.Proofs.Solving
import Optima.Proofs.Transport.Links
import Optima.Proofs.Assignment.Augmentation
