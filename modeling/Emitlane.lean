import Emitlane.Lib.Runs
import Emitlane.Lib.Parties
import Emitlane.Lib.Table
import Emitlane.Lib.Txn
import Emitlane.Lib.Overlay
import Emitlane.Lib.WorkItem
import Emitlane.Lib.Fence
import Emitlane.Lib.Pool
import Emitlane.Lib.Utf8
import Emitlane.Lib.Base64
import Emitlane.Lib.Binary64
import Emitlane.Lib.Listing
import Emitlane.Lib.Ddl
import Emitlane.Lib.DdlValid
import Emitlane.Basic
import Emitlane.Text
import Emitlane.ErrorText
import Emitlane.Ordering
import Emitlane.Schema
import Emitlane.Store.Outbox
import Emitlane.Store.Claim
import Emitlane.Store.Ordered
import Emitlane.Store.Admin
import Emitlane.Store.OrderingAdmin
import Emitlane.Store.Ownership
import Emitlane.Store.Reconcile
import Emitlane.Store.Enabled
import Emitlane.Outbox.Event
import Emitlane.Outbox.Writer
import Emitlane.Outbox.Effect
import Emitlane.Relay.Config
import Emitlane.Relay.Message
import Emitlane.Relay.Handle
import Emitlane.Relay.Scheduler
import Emitlane.Relay.Backoff
import Emitlane.System.Model
import Emitlane.Relay.Lease
import Emitlane.System.Next
import Emitlane.System.Lifecycle
import Emitlane.System.Script
import Emitlane.System.Origin
import Emitlane.Delivery
import Emitlane.StaleClaims
import Emitlane.Cursor
import Emitlane.Handoff
import Emitlane.LockWait
import Emitlane.Progress.Drain
import Emitlane.Progress.Takeover
import Emitlane.Republish
import Emitlane.Producers
import Emitlane.Inbox.Store
import Emitlane.Inbox.Process
import Emitlane.Inbox.System
import Emitlane.Inbox.AtMostOnce
import Emitlane.Inbox.Earned
import Emitlane.Inbox.Effect
import Emitlane.Consumer.Config
import Emitlane.Consumer.Retry
import Emitlane.Consumer.Backoff
import Emitlane.Consumer.Worker
import Emitlane.Consumer.Message
import Emitlane.Consumer.Next
import Emitlane.Consumer.System
import Emitlane.Consumer.PartitionOrder
import Emitlane.Consumer.Polls
import Emitlane.Consumer.DeadLetters
import Emitlane.Consumer.Attempts
import Emitlane.Consumer.LastAttempt
import Emitlane.Pipeline
import Emitlane.Admin.Service
import Emitlane.Admin.Cursors
import Emitlane.Admin.Listings
import Emitlane.Admin.StreamListing
import Emitlane.Identity
import Emitlane.Replay
import Emitlane.AuditTrail
import Emitlane.Journal
import Emitlane.Pause
import Emitlane.Integrity.Complete
import Emitlane.Integrity.Sound
import Emitlane.Integrity.Stream
import Emitlane.Integrity.Targeted
import Emitlane.Integrity.Classifiers
import Emitlane.Soak
import Emitlane.Migrations.Scripts
import Emitlane.Migrations.Migrate
import Emitlane.Migrations.Upgrade
import Emitlane.Migrations.Downgrade
import Emitlane.Migrations.System
