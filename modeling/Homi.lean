import Homi.Framework.Table
import Homi.Framework.ReadCommitted
import Homi.Framework.Interference
import Homi.Framework.Output
import Homi.Framework.Owned
import Homi.Framework.Encoding
import Homi.Framework.Keyset
import Homi.Db.Schema
import Homi.Api.Requests
import Homi.Db.Client
import Homi.Ledger.Posting
import Homi.Api.Access
import Homi.Api.LedgerService
import Homi.Api.BillsService
import Homi.Api.Houses
import Homi.Api.Invites
import Homi.Worker.PostDueBills
import Homi.System
import Homi.Verification.Routes
import Homi.Verification.Footprint
import Homi.Verification.Statements
import Homi.Verification.LedgerRules
import Homi.Verification.LedgerProtocol
import Homi.Verification.Postings
import Homi.Verification.Edits
import Homi.Verification.Claims
import Homi.Verification.Accepts
import Homi.Verification.Members
import Homi.Verification.LedgerRuns
import Homi.Verification.Commits
import Homi.Verification.Hints
import Homi.Verification.Parties
import Homi.Verification.Replies
import Homi.Verification.Payments
import Homi.Verification.Invites
import Homi.Verification.Uses
import Homi.Verification.Joins
import Homi.Verification.Keys
import Homi.Verification.Forms
import Homi.Verification.Pages
import Homi.Domain.DueDates
import Homi.Domain.Instant
import Homi.Api.Cursor
import Homi.Api.LedgerPages
import Homi.Mobile.Forms
import Homi.Api.Realtime
import Homi.Verification.Channels
import Homi.Verification.Listeners
import Homi.Framework.Alone
import Homi.Domain.Rooms
import Homi.Verification.RoomSplits
import Homi.Api.Snapshot
import Homi.Verification.Prompts
import Homi.Verification.Households
import Homi.Verification.Previews
import Homi.Verification.Rejections
import Homi.Verification.Configurations
import Homi.Verification.Templates
import Homi.Verification.WorkerRuns
import Homi.Verification.DueBills
import Homi.Domain.SettleUp
import Homi.Verification.Amounts
import Homi.Verification.AddExpense
import Homi.Verification.RequestHashes
import Homi.Api.RateLimiter
import Homi.Verification.RateLimits
import Homi.Verification.Switches
import Homi.Verification.MemberReads
import Homi.Domain.Renaming
import Homi.Verification.Claimants
import Homi.Verification.Tiles
import Homi.Verification.Recurring
import Homi.Verification.Housing
import Homi.Verification.Tenancy
import Homi.Verification.Isolation
import Homi.Verification.Books
import Homi.Verification.Bookkeeping
import Homi.Verification.Snapshots
import Homi.Verification.Announcements
