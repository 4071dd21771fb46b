import Mach402.Library.Transition
import Mach402.Library.Threads
import Mach402.Library.Binary64
import Mach402.Library.Purse
import Mach402.Library.Reentry
import Mach402.Library.Totals
import Mach402.Library.Submissions
import Mach402.Library.Decimal
import Mach402.Library.Index
import Mach402.Library.Lines
import Mach402.Library.Json
import Mach402.Library.HostPort
import Mach402.Agent.Duration
import Mach402.Agent.Lease
import Mach402.Agent.Meter
import Mach402.Agent.Terms
import Mach402.Agent.Node
import Mach402.Agent.NodeInvariant
import Mach402.Agent.Money
import Mach402.Agent.Settlement
import Mach402.Agent.Refunded
import Mach402.Agent.Ending
import Mach402.Agent.Exposure
import Mach402.Agent.Length
import Mach402.Agent.Freeze
import Mach402.Agent.Tunnel
import Mach402.Library.Search
import Mach402.Agent.QuickTunnel
import Mach402.Agent.Deposit
import Mach402.Agent.Dashboard
import Mach402.Web.Amounts
import Mach402.Agent.Figures
import Mach402.Agent.Expiry
import Mach402.Agent.Container
import Mach402.Agent.Slot
import Mach402.Agent.Resources
import Mach402.Agent.Trail
import Mach402.Agent.CreateSession
import Mach402.Agent.CreateThread
import Mach402.Agent.Receipts
import Mach402.McpServer.Payments
import Mach402.McpServer.Confirmation
import Mach402.McpServer.DailyCap
import Mach402.Library.Ecma
import Mach402.McpServer.SpendLedger
import Mach402.McpServer.Quote
import Mach402.Agent.Config
import Mach402.Library.Bytes
import Mach402.Library.Base64
import Mach402.Library.Fraction
import Mach402.Library.Paths
import Mach402.Agent.ConfigFile
import Mach402.Registry.Validate
import Mach402.Agent.Nodespec
import Mach402.Agent.Prices
import Mach402.Agent.Sale
import Mach402.Registry.Store
import Mach402.Registry.Listing
import Mach402.Registry.Announcer
import Mach402.Egress.Proxy
import Mach402.Agent.PublicKey
import Mach402.Client.SshKey
import Mach402.Contracts.SessionEscrow
import Mach402.Contracts.Solvency
import Mach402.Contracts.Payouts
import Mach402.Contracts.Quotes
import Mach402.Contracts.Records
import Mach402.Contracts.IdentityRegistry
import Mach402.Contracts.Identities
import Mach402.Contracts.Registering
import Mach402.Library.Routine
import Mach402.Library.Routes
import Mach402.Library.Retry
import Mach402.Library.JsonText
import Mach402.Library.EcmaJson
import Mach402.Agent.Docker
import Mach402.Agent.Sandbox
import Mach402.Agent.Dockerd
import Mach402.Agent.Containment
import Mach402.Agent.Programs
import Mach402.Agent.Isolation
import Mach402.Agent.Orphans
import Mach402.Agent.Allowlist
import Mach402.Agent.AwaitDeposit
import Mach402.Agent.Facilitator
import Mach402.Agent.Wire
