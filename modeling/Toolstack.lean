import Toolstack.Table
import Toolstack.Json.Unambiguous
import Toolstack.Forwarder.Disclosure
import Toolstack.Admin.LoginGuard
import Toolstack.Admin.Revocation
import Toolstack.Admin.ConfigSave
import Toolstack.Admin.ManifestRoundTrip
import Toolstack.Broker.AppliedSettings
import Toolstack.Broker.Policy
import Toolstack.Broker.SummaryOrder
import Toolstack.Broker.RedactedNotes
import Toolstack.Broker.PolicyInvalidation
import Toolstack.Broker.Recovery
import Toolstack.Broker.Stranding
import Toolstack.Broker.AuditTruth
import Toolstack.Broker.KeyLedger
import Toolstack.Broker.Restore
import Toolstack.Broker.Terminal
import Toolstack.Broker.ToolNames
import Toolstack.Sps.Authority
import Toolstack.Sps.ErrorSecrecy
import Toolstack.Sps.HashicorpVault
import Toolstack.Sps.Updates
import Toolstack.Sps.Wire
import Toolstack.Loaders
import Toolstack.RestArguments
import Toolstack.Broker.Retries
import Toolstack.Toolyard.EgressProxy
import Toolstack.Toolyard.StartReceipts
import Toolstack.Broker.CatalogServes
import Toolstack.Broker.EventStream
import Toolstack.Broker.SurfaceNod
import Toolstack.MacApp.DraftCommit
import Toolstack.MacApp.Rebase
import Toolstack.Admin.GrantEdits
import Toolstack.Admin.SupervisedBroker
import Toolstack.Admin.Runtimes
import Toolstack.Admin.VerifiedCatalog
