import Recompiler.Code.Listing
import Recompiler.Script.CacheScript
import Recompiler.Script.Session
import Recompiler.Text.Hex
import Recompiler.Proofs.Code.Performing
import Recompiler.Proofs.Dispatch.Freshness
import Recompiler.Proofs.Dispatch.Descriptors
import Recompiler.Proofs.Dispatch.Reuse
import Recompiler.Proofs.Dispatch.Companions
import Recompiler.Proofs.Dispatch.Fetching
import Recompiler.Proofs.Dispatch.Invalidation
import Recompiler.Proofs.Dispatch.Monitors
import Recompiler.Proofs.Dispatch.Registry
import Recompiler.Proofs.Code.Standing
import Recompiler.Proofs.Dispatch.Chains
import Recompiler.Proofs.Dispatch.Budget
import Recompiler.Proofs.Dispatch.CodeSize
import Recompiler.Proofs.Dispatch.CheckedStores
import Recompiler.Proofs.Compile.Operands
import Recompiler.Proofs.Dispatch.Restart
import Recompiler.Proofs.Dispatch.Callbacks
import Recompiler.Proofs.Compile.Immediates
import Recompiler.Proofs.Dispatch.Instructions
import Recompiler.Proofs.Dispatch.Preparing
import Recompiler.Proofs.Dispatch.StackRestart
import Recompiler.Proofs.Dispatch.Termination
import Recompiler.Proofs.Dispatch.ExactStores
import Recompiler.Proofs.Dispatch.Failures
import Recompiler.Proofs.Dispatch.PoolSize
import Recompiler.Proofs.Dispatch.Baking
import Recompiler.Proofs.Dispatch.Teardown
import Recompiler.Proofs.Dispatch.CodeLength
import Recompiler.Proofs.Dispatch.Counters
import Recompiler.Proofs.Dispatch.Releases
