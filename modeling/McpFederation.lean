import McpFederation.Proofs.Auth
import McpFederation.Proofs.Backoff
import McpFederation.Proofs.Chains
import McpFederation.Proofs.ClientInfo
import McpFederation.Proofs.Confinement
import McpFederation.Proofs.Cycles
import McpFederation.Proofs.DnsTask
import McpFederation.Proofs.Endpoints
import McpFederation.Proofs.Expiry
import McpFederation.Proofs.Fanout
import McpFederation.Proofs.Finalizers
import McpFederation.Proofs.Framing
import McpFederation.Proofs.Freshness
import McpFederation.Proofs.HealthUrl
import McpFederation.Proofs.Interpolation
import McpFederation.Proofs.Kubernetes
import McpFederation.Proofs.LogLevels
import McpFederation.Proofs.Malformed
import McpFederation.Proofs.Marking
import McpFederation.Proofs.Mirror
import McpFederation.Proofs.Monitors
import McpFederation.Proofs.Namespacing
import McpFederation.Proofs.Nesting
import McpFederation.Proofs.Outages
import McpFederation.Proofs.Pruning
import McpFederation.Proofs.RateLimits
import McpFederation.Proofs.ReadBack
import McpFederation.Proofs.Reconcile
import McpFederation.Proofs.Refresh
import McpFederation.Proofs.Register
import McpFederation.Proofs.Reinit
import McpFederation.Proofs.Relay
import McpFederation.Proofs.Reloads
import McpFederation.Proofs.Representation
import McpFederation.Proofs.Requests
import McpFederation.Proofs.Requeue
import McpFederation.Proofs.Restart
import McpFederation.Proofs.Retry
import McpFederation.Proofs.Search
import McpFederation.Proofs.Sessions
import McpFederation.Proofs.SideBySide
import McpFederation.Proofs.SrvRecords
import McpFederation.Proofs.StatusPage
import McpFederation.Proofs.Stdio
import McpFederation.Proofs.Subscriptions
import McpFederation.Proofs.Timestamps
import McpFederation.Proofs.Traffic
import McpFederation.Proofs.Visibility
import McpFederation.Proofs.WarmUp
