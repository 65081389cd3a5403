import LotterySystem.Interleaving.Program
import LotterySystem.Interleaving.Machine
import LotterySystem.Interleaving.Progress
import LotterySystem.Interleaving.RelyGuarantee
import LotterySystem.Interleaving.History
import LotterySystem.Interleaving.Sequential
import LotterySystem.Interleaving.Chart
import LotterySystem.Interleaving.View
import LotterySystem.Interleaving.Channel
import LotterySystem.Interleaving.References
import LotterySystem.Text.Decimal
import LotterySystem.Text.Time
import LotterySystem.Text.Sha256
import LotterySystem.Text.Address
import LotterySystem.Text.Duration
import LotterySystem.Shuffle.FisherYates
import LotterySystem.Lottery.Algorithm
import LotterySystem.Store.Tables
import LotterySystem.Store.Models
import LotterySystem.Store.Server
import LotterySystem.Store.Schema
import LotterySystem.Store.Sql
import LotterySystem.Lottery.Seal
import LotterySystem.Text.Space
import LotterySystem.Text.Json
import LotterySystem.Http.Body
import LotterySystem.Http.LoginKey
import LotterySystem.Http.Request
import LotterySystem.Http.ClientIP
import LotterySystem.Bits.Leading
import LotterySystem.Config.Proxies
import LotterySystem.Config.Load
import LotterySystem.Store.Transaction
import LotterySystem.Booking.Service
import LotterySystem.Booking.Replies
import LotterySystem.Booking.Readers
import LotterySystem.Http.Respond
import LotterySystem.Api.Handlers
import LotterySystem.Api.Refinement
import LotterySystem.Api.Guarantees
import LotterySystem.Api.Sessions
import LotterySystem.Interleaving.Observation
import LotterySystem.Event.Service
import LotterySystem.Event.Validation
import LotterySystem.Paging.Slices
import LotterySystem.Event.Listing
import LotterySystem.Event.Paging
import LotterySystem.Lottery.Service
import LotterySystem.Event.Lifecycle
import LotterySystem.Event.AllOrNothing
import LotterySystem.Requests
import LotterySystem.Serialization.Contract
import LotterySystem.Serialization.Statements
import LotterySystem.Serialization.Calls
import LotterySystem.Serialization.Rules
import LotterySystem.Serialization.Booking
import LotterySystem.Serialization.Event
import LotterySystem.Serialization.Draw
import LotterySystem.Serialization.System
import LotterySystem.Booking.Gate
import LotterySystem.Booking.Fairness
import LotterySystem.Booking.Capacity
import LotterySystem.Serialization.Progress
import LotterySystem.Booking.Outcomes
import LotterySystem.Booking.RedisLock
import LotterySystem.Booking.LockOwnership
import LotterySystem.Event.History
import LotterySystem.Lottery.Invariant
import LotterySystem.Lottery.Results
import LotterySystem.Serialization.Moments
import LotterySystem.Lottery.Atomicity
import LotterySystem.Lottery.Exclusion
import LotterySystem.Lottery.Tampering
import LotterySystem.Lottery.AppendOnly
import LotterySystem.Migrations.Database
import LotterySystem.Migrations.Files
import LotterySystem.Migrations.Runner
import LotterySystem.Migrations.Convergence
import LotterySystem.Migrations.Replicas
import LotterySystem.Migrations.Skipping
import LotterySystem.Replay.Settled
import LotterySystem.Migrations.Rollout
import LotterySystem.Migrations.Catalog
import LotterySystem.Migrations.Blocks
import LotterySystem.Migrations.Enforcement
import LotterySystem.Auth.Accounts
import LotterySystem.Auth.Service
import LotterySystem.Auth.Registration
import LotterySystem.Auth.Mailboxes
import LotterySystem.Auth.Router
import LotterySystem.Auth.Privilege
import LotterySystem.Deployment.Cluster
import LotterySystem.Deployment.Refinement
import LotterySystem.Deployment.Exclusion
import LotterySystem.Deployment.Progress
