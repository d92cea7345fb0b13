import SeoAgent.Verified.Service
import SeoAgent.Billing.PaidPayments
import SeoAgent.Verified.Keyset
import SeoAgent.Persistence.Agreement
import SeoAgent.Ports.Job
import SeoAgent.Ports.Approval
import SeoAgent.Ports.ActionHistory
import SeoAgent.Ports.ActionJobs
import SeoAgent.Ports.HeldActions
import SeoAgent.Ports.Rollbacks
import SeoAgent.Ports.Settlements
import SeoAgent.Ports.JobScheduler
import SeoAgent.Ports.JobHistory
import SeoAgent.Ports.WorkerLoop
import SeoAgent.Ports.TitleHistory
import SeoAgent.Ports.DecisionEngine
import SeoAgent.Ports.TitleProposal
import SeoAgent.Accounts.OtpLimits
import SeoAgent.Accounts.Indexes
import SeoAgent.Ports.RunHistory
import SeoAgent.Net.Outbound
import SeoAgent.Onboarding.SharedCredential
import SeoAgent.Onboarding.GoogleGrant
import SeoAgent.Scan.FileDecisions
import SeoAgent.Scan.ScanOrder
import SeoAgent.Onboarding.Parts
import SeoAgent.Onboarding.SiteUpdates
import SeoAgent.Onboarding.StateUse
import SeoAgent.Accounts.GoogleLogin
import SeoAgent.KeywordIntel.Budget
import SeoAgent.KeywordIntel.BudgetCount
import SeoAgent.Verified.Lines
import SeoAgent.Scan.RobotsRules
import SeoAgent.Scan.RobotsFile
import SeoAgent.Verified.Best
import SeoAgent.Ports.TitleSelection
import SeoAgent.Verified.Distinct
import SeoAgent.Verified.Median
import SeoAgent.Verified.Decimal
import SeoAgent.Features.Observation
import SeoAgent.Features.Extraction
import SeoAgent.Features.PositionDecline
import SeoAgent.Measurement.Window
import SeoAgent.SiteAdapters.WordPress
import SeoAgent.Verified.Steps
import SeoAgent.Persistence.Migrator
import SeoAgent.Persistence.MigrationOrder
import SeoAgent.Warehouse.Planner
import SeoAgent.Warehouse.Runner
import SeoAgent.Warehouse.Backfill
import SeoAgent.Verified.Merge
import SeoAgent.Warehouse.Rows
import SeoAgent.Warehouse.Fetch
import SeoAgent.Normalization.Gsc
import SeoAgent.Normalization.CanonicalUrl
import SeoAgent.Normalization.CanonicalAgain
import SeoAgent.Normalization.Agreement
import SeoAgent.Targets.Keywords
import SeoAgent.Targets.Capacity
import SeoAgent.Targets.Writers
import SeoAgent.Verified.Outcome
import SeoAgent.Measurement.Series
import SeoAgent.Measurement.Engine
import SeoAgent.Measurement.Runner
import SeoAgent.Measurement.Settling
import SeoAgent.Verified.Table
import SeoAgent.Verified.SlidingWindow
import SeoAgent.Accounts.AttemptLimiter
import SeoAgent.Accounts.Passwords
import SeoAgent.Accounts.PasswordSignIn
import SeoAgent.Accounts.SignInRaces
import SeoAgent.Decision.Signals
import SeoAgent.Decision.Stages
import SeoAgent.Learning.Feedback
import SeoAgent.Learning.Advice
import SeoAgent.Decision.Engine
import SeoAgent.Learning.Aggregation
import SeoAgent.Learning.Bounds
import SeoAgent.Scan.RobotsReference
import SeoAgent.Scan.RobotsAnchors
import SeoAgent.Scan.RobotsSpelling
import SeoAgent.Verified.Nfc
import SeoAgent.Scan.HealthScore
import SeoAgent.Normalization.Query
import SeoAgent.Normalization.QueryAgain
import SeoAgent.Onboarding.Vault
import SeoAgent.Onboarding.VaultSlots
import SeoAgent.KeywordIntel.VolumeCache
import SeoAgent.Reasoning.Registry
import SeoAgent.Verified.Alone
import SeoAgent.Billing.Recheck
import SeoAgent.Reasoning.Router
import SeoAgent.Verified.Percent
import SeoAgent.Verified.PosixPath
import SeoAgent.Verified.QueryString
import SeoAgent.Verified.UrlText
import SeoAgent.Verified.Netloc
import SeoAgent.Onboarding.SiteRoom
import SeoAgent.Verified.Does
import SeoAgent.Scan.RescanRound
import SeoAgent.Scan.RescanPacing
import SeoAgent.Verified.Like
import SeoAgent.Warehouse.PageSearch
import SeoAgent.Onboarding.GoogleDetach
import SeoAgent.Onboarding.DetachRuns
import SeoAgent.Crawler.Addresses
import SeoAgent.Crawler.Crawl
import SeoAgent.Crawler.Visits
import SeoAgent.Crawler.Issues
import SeoAgent.Tenancy.Access
import SeoAgent.Accounts.SessionRuns
import SeoAgent.Verified.Intern
import SeoAgent.Warehouse.LedgerTruth
import SeoAgent.Verified.Aggregate
import SeoAgent.Warehouse.ReportTruth
import SeoAgent.Gsc.Client
import SeoAgent.Gsc.ClientRuns
