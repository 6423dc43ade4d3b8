import Jolt.Access.Ceilings
import Jolt.Access.FilteredPulls
import Jolt.Access.Paging
import Jolt.Access.Shares
import Jolt.Access.UniqueJson
import Jolt.Approvals.Lifecycle
import Jolt.Audit.Chain
import Jolt.Copies.Resumable
import Jolt.Enrollments.Deadlines
import Jolt.Enrollments.Naming
import Jolt.Executors.Accounting
import Jolt.Jobs.Attempts
import Jolt.Jobs.Creation
import Jolt.Jobs.Guard
import Jolt.Jobs.PeerRevocation
import Jolt.Jobs.Plans
import Jolt.Pki.Adoption
import Jolt.Pki.Signing
import Jolt.Plans.Distinct
import Jolt.State.Exhaustion
import Jolt.Tokens.Rotation
import Jolt.Transfers.Cleanup
import Jolt.Transfers.Manifests
import Jolt.Transfers.MoveSafety
import Jolt.Transfers.Ranges
import Jolt.Trust.Reloading
import Jolt.Uploads.Reauthorization
