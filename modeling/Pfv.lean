import Pfv.Base.Run
import Pfv.Services.Accounts
import Pfv.Services.Recurring
import Pfv.Services.Import
import Pfv.Services.Categories
import Pfv.Services.Members
import Pfv.Members.Owners
import Pfv.Members.UserLimit
import Pfv.Billing.Entitlements
import Pfv.Tags.Dictionary
import Pfv.Services.OrgData
import Pfv.Tenancy.Removal
import Pfv.Tenancy.ResetLock
import Pfv.Tenancy.Merge
import Pfv.Accounts.TypeChange
import Pfv.Accounts.Inactive
import Pfv.Categories.Choices
import Pfv.Auth.OneTime
import Pfv.Auth.Continuity
import Pfv.Auth.Cookies
import Pfv.Auth.Invalidation
import Pfv.Categories.Tree
import Pfv.Categories.Floor
import Pfv.Categories.Races
import Pfv.Categories.TreeRaces
import Pfv.Categories.Migration
import Pfv.Categories.Errors
import Pfv.Categories.Moves
import Pfv.Ledger.Effects
import Pfv.Ledger.Specs
import Pfv.Ledger.Removal
import Pfv.Ledger.Growth
import Pfv.Ledger.Transitions
import Pfv.Ledger.Requests
import Pfv.Ledger.Drift
import Pfv.Ledger.BalanceLaw
import Pfv.Ledger.Links
import Pfv.Ledger.Pairs
import Pfv.Ledger.Deletion
import Pfv.Ledger.Batches
import Pfv.Ledger.BatchEntry
import Pfv.Ledger.Counters
import Pfv.Ledger.ReconcileLaw
import Pfv.Ledger.Adjustments
import Pfv.Ledger.AdjustmentTargets
import Pfv.Ledger.Matches
import Pfv.Ledger.Closing
import Pfv.Ledger.Consistency
import Pfv.Ledger.RowRules
import Pfv.Ledger.Dates
import Pfv.Ledger.Generation
import Pfv.Ledger.LockOrder
import Pfv.Ledger.Reimport
import Pfv.Ledger.Candidates
import Pfv.Base.Like
import Pfv.Base.Paging
import Pfv.Services.Listing
import Pfv.Ledger.Listing
import Pfv.Imports.BankFiles
import Pfv.Imports.OfxFiles
import Pfv.Services.Projections
import Pfv.Services.Budgets
import Pfv.Services.Learning
import Pfv.Planning.Partition
import Pfv.Planning.Actuals
import Pfv.Planning.Anchors
import Pfv.Planning.Figures
import Pfv.Planning.Plans
import Pfv.Planning.Occurrences
import Pfv.Planning.Settling
import Pfv.Planning.Breakdown
import Pfv.Planning.ProjectedEnds
import Pfv.Planning.OpenPeriod
import Pfv.Base.Words
import Pfv.Base.Regex
import Pfv.Base.Loop
import Pfv.Services.Normalization
import Pfv.Categories.Merchants
import Pfv.Services.ClientAddress
import Pfv.Auth.ClientKeys
import Pfv.Auth.CutoffSeconds
import Pfv.Base.Distinct
import Pfv.Services.TagSuggestions
import Pfv.Tags.Suggestions
import Pfv.Base.Grouping
import Pfv.Services.DescriptionSuggestions
import Pfv.Ledger.DescriptionSuggestions
import Pfv.Services.AccountDeletion
import Pfv.Accounts.Deletion
import Pfv.Frontend.Api
import Pfv.Frontend.Singleflight
import Pfv.Base.Slices
import Pfv.Base.Projection
import Pfv.Ledger.References
import Pfv.Ledger.OwnWrites
import Pfv.Ledger.Locality
import Pfv.Ledger.Isolation
import Pfv.Services.BudgetSessions
import Pfv.Planning.BudgetRaces
import Pfv.Members.InvitationLife
import Pfv.Ledger.FullLaw
import Pfv.Services.PairSessions
import Pfv.Ledger.PairRaces
import Pfv.Ledger.Serializable
import Pfv.Tenancy.UserDeletion
