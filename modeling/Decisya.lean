import Decisya.Concurrency.Program
import Decisya.Concurrency.Trace
import Decisya.Concurrency.RelyGuarantee
import Decisya.Concurrency.Alone
import Decisya.Redis.Store
import Decisya.Bff.Ticket
import Decisya.Bff.World
import Decisya.Bff.RedisTicketStore
import Decisya.Bff.TokenRefresh
import Decisya.Bff.Frames
import Decisya.Bff.SidIndex
import Decisya.Bff.Outline
import Decisya.Bff.Resurrection
import Decisya.Bff.HealthySession
import Decisya.Bff.SingleRefresh
import Decisya.Bff.Rotation
import Decisya.Text.Split
import Decisya.Bff.CookieHeader
import Decisya.Text.Utf16
import Decisya.Tenancy.TenantId
import Decisya.Tenancy.TenantKey
import Decisya.Api.CallerContext
import Decisya.Api.EnvelopeTenant
import Decisya.Api.MessageScope
import Decisya.Persistence.TenantDbContext
import Decisya.Persistence.TenantIsolation
import Decisya.Sql.ReadCommitted
import Decisya.Sql.Invariant
import Decisya.Sql.Frames
import Decisya.Sql.View
import Decisya.Sql.Protocol
import Decisya.Entitlements.Model
import Decisya.Entitlements.Handlers
import Decisya.Entitlements.Columns
import Decisya.Entitlements.AuditAcceptance
import Decisya.Entitlements.AuditTrail
import Decisya.Entitlements.Alone
import Decisya.Entitlements.Evaluation
import Decisya.Tenancy.MembershipGate
import Decisya.Sql.Session
import Decisya.Sql.Grants
import Decisya.Migrator.AppendOnlyGrants
import Decisya.Images.Overlay
import Decisya.Images.MergedView
import Decisya.Graphs.Saturation
import Decisya.Text.GoVersion
import Decisya.Images.BuildList
import Decisya.Images.VersionOrder
import Decisya.Numbers.Decimal
import Decisya.SharedKernel.Money
import Decisya.Numbers.LargestRemainder
import Decisya.SharedKernel.Allocate
import Decisya.SharedKernel.AllocationRun
import Decisya.SharedKernel.AllocationDomain
import Decisya.SharedKernel.AllocationFairness
import Decisya.SharedKernel.DomainError
import Decisya.Time.Calendar
import Decisya.Text.Json
import Decisya.Text.Python
import Decisya.Text.Lowercase
import Decisya.Text.Percent
import Decisya.Edge.Paths
import Decisya.Edge.Table
import Decisya.Edge.Headers
import Decisya.ImageScan.Policy
import Decisya.ImageScan.Record
import Decisya.ImageScan.FreshnessGate
import Decisya.Deploy.Secrets
import Decisya.Deploy.InterruptedChange
import Decisya.Deploy.SecretRuns
import Decisya.Deploy.SecretRepair
import Decisya.Text.Pattern
import Decisya.Text.Scan
import Decisya.Text.Numeral
import Decisya.Text.Overlap
import Decisya.Logging.Shapes
import Decisya.Logging.MaskString
import Decisya.Logging.TokenSecrecy
import Decisya.Text.JsonText
import Decisya.Logging.MaskedState
import Decisya.Logging.JsonConsoleFormatter
import Decisya.Logging.OneLine
import Decisya.Bff.FreshTicket
import Decisya.Bff.RouteClassifier
import Decisya.KeyRing.TextRule
import Decisya.KeyRing.StartupCheck
import Decisya.ImageScan.ExceptionOrder
import Decisya.ImageScan.Delta
import Decisya.Tenancy.TenantText
import Decisya.Computation.Fuel
import Decisya.Logging.TypeAnalyzer
import Decisya.Logging.MaskingProcessor
import Decisya.Logging.RenderingBounds
import Decisya.Logging.FormattedMessage
import Decisya.Logging.RecordUniverse
import Decisya.Logging.RecordSecrecy
import Decisya.Bff.Configuration
import Decisya.Bff.RateLimitOptions
import Decisya.Deploy.RateLimitCheck
import Decisya.Deploy.SqlLexis
import Decisya.Deploy.IdentitySql
import Decisya.Deploy.IdentitySqlLexing
import Decisya.Deploy.IdentitySqlReading
import Decisya.Deploy.IdentitySqlCheck
import Decisya.Text.UrlSplit
import Decisya.Deploy.Report
import Decisya.Deploy.Commands
import Decisya.Deploy.CommandRuns
import Decisya.Deploy.CommandApproval
import Decisya.Computation.Folds
import Decisya.Zap.Origin
import Decisya.Zap.Policy
import Decisya.Zap.Verdict
import Decisya.Zap.Exceptions
import Decisya.Sql.Connection
import Decisya.Sql.Roles
import Decisya.Migrator.Provisioning
import Decisya.Bff.Partitions
import Decisya.Computation.TickOff
import Decisya.Deploy.Mounts
