import Callable.Failure.Chain
import Callable.Probe.Explain
import Callable.Session.Failures
import Callable.Session.Script
import Callable.Session.Tracing
import Callable.Resolution.Region
import Callable.Resolution.Proper
import Callable.Proofs.Explanation
import Callable.Proofs.Blame
import Callable.Proofs.Budget
import Callable.Proofs.Agreement
import Callable.Proofs.Verdict
import Callable.Proofs.RootCause
import Callable.Proofs.Oblivious
import Callable.Run.Nest
import Callable.Proofs.Untraced
import Callable.Proofs.Bracketing
import Callable.Proofs.Escape
import Callable.Run.Calls
import Callable.Proofs.Nesting
import Callable.Proofs.Seeding
import Callable.Run.Count
import Callable.Proofs.Counting
import Callable.Proofs.Independence
import Callable.Proofs.Lookahead
import Callable.Proofs.Folding
import Callable.Proofs.Levels
import Callable.Proofs.Decorating
import Callable.Proofs.Chains
import Callable.Proofs.Trails
import Callable.Proofs.Arithmetic
import Callable.Proofs.Choices
import Callable.Proofs.Displays
import Callable.Proofs.Termination
