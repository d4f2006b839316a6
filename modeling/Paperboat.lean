import Paperboat.Auth.Jwks
import Paperboat.Auth.Revocations
import Paperboat.ConfigSync.Confinement
import Paperboat.ConfigSync.Convergence
import Paperboat.ConfigSync.Deletion
import Paperboat.ConfigSync.Edits
import Paperboat.ConfigSync.Forgetting
import Paperboat.ConfigSync.Protocol
import Paperboat.ConfigSync.Publication
import Paperboat.ConfigSync.Reachability
import Paperboat.ConfigSync.Rollback
import Paperboat.ConfigSync.Status
import Paperboat.Connector.Manager
import Paperboat.FileTransfer.Loopback
import Paperboat.FileTransfer.Verdict
import Paperboat.FileTransfer.Writers
import Paperboat.History.Memory
import Paperboat.HostService.Recovery
import Paperboat.Operation.Canonical
import Paperboat.Operation.Capacity
import Paperboat.Protocol.ZstdFrame
import Paperboat.Runtime.Accepting
import Paperboat.Server.Batches
import Paperboat.Server.Credential
import Paperboat.Server.Disconnect
import Paperboat.Server.Orphans
import Paperboat.Server.StreamIDs
import Paperboat.Session.Agreement
import Paperboat.Session.Clearing
import Paperboat.Session.Discard
import Paperboat.Session.Generations
import Paperboat.Session.Recoverable
import Paperboat.Session.Submission
import Paperboat.Store.Mirror
