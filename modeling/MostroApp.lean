import MostroApp.Lib.Transition
import MostroApp.Lib.Keyed
import MostroApp.Lib.Interleaving
import MostroApp.Types
import MostroApp.Mostro.Status
import MostroApp.Mostro.Pending
import MostroApp.Mostro.PendingCorrelation
import MostroApp.Mostro.DisputeAttempts
import MostroApp.Api.Messages
import MostroApp.Api.ChatCursor
import MostroApp.Api.OrderState
import MostroApp.Api.TradeRows
import MostroApp.Api.Bond
import MostroApp.Api.Dispatch
import MostroApp.Lib.HighWater
import MostroApp.Api.Frames
import MostroApp.Api.StatusArms
import MostroApp.Api.DeliveryOrder
import MostroApp.Api.Tasks
import MostroApp.Api.Confirm
import MostroApp.Api.PublicEvents
import MostroApp.Api.Absorbing
import MostroApp.Api.Passes
import MostroApp.Api.Wiped
import MostroApp.Api.StaysWiped
import MostroApp.Api.BondStates
import MostroApp.Api.LostTake
import MostroApp.Api.ConfirmedRow
import MostroApp.Api.Handover
import MostroApp.Api.Identity
import MostroApp.Api.TradeKeyCache
import MostroApp.Mostro.BondClaims
import MostroApp.Api.ClaimNodes
import MostroApp.Api.ClaimSubmission
import MostroApp.Api.ClaimReplay
import MostroApp.Mostro.Session
import MostroApp.Api.PeerReveal
import MostroApp.Api.DisputeRecord
import MostroApp.Api.DisputeListener
import MostroApp.Nwc.Client
import MostroApp.Api.MessageIds
import MostroApp.Api.Nodes
import MostroApp.Nostr.Subscriptions
import MostroApp.Api.Listeners
import MostroApp.Nostr.LiveSubs
import MostroApp.Lib.Collect
import MostroApp.Api.OrderBook
import MostroApp.Api.OrderFeed
import MostroApp.Api.BookStream
import MostroApp.Lib.Rows
import MostroApp.Mostro.Push
import MostroApp.Api.Push
import MostroApp.Api.PushOutcomes
import MostroApp.Api.PushRuns
import MostroApp.Lib.Mutex
import MostroApp.Api.PushRetry
import MostroApp.Lib.Json
import MostroApp.Db.TradeJson
import MostroApp.Db.TradeStore
import MostroApp.Db.Backends
import MostroApp.Nostr.RelayPool
import MostroApp.Lib.Text
import MostroApp.Lib.Window
import MostroApp.Lib.Newest
import MostroApp.Queue.Outbox
import MostroApp.Api.DedupWindows
import MostroApp.Nostr.FirstAnswer
import MostroApp.Api.NodeInfoCache
import MostroApp.Api.OrderCounts
import MostroApp.Mostro.DisputeRollback
import MostroApp.Cashu.Nut11
import MostroApp.Cashu.Escrow
import MostroApp.Lib.Fairness
import MostroApp.Nostr.Coalesce
import MostroApp.Api.ReconcileRequests
import MostroApp.Api.Coalescers
import MostroApp.Api.Resync
import MostroApp.Nostr.RelayList
import MostroApp.Lib.Numeral
import MostroApp.Lib.Sorting
import MostroApp.Api.FailedWrites
import MostroApp.Nwc.Wallet
import MostroApp.Db.Float64
import MostroApp.Db.Value
import MostroApp.Mostro.Amounts
import MostroApp.Cashu.Release
import MostroApp.Api.Reputation
import MostroApp.Nostr.Connection
import MostroApp.Features.ChatRooms
import MostroApp.Nostr.OrderEvents
import MostroApp.Features.OrderItems
import MostroApp.Features.NotificationList
import MostroApp.Lib.TokenBucket
import MostroApp.Api.ChatBudget
import MostroApp.Lib.Handles
import MostroApp.Api.OrderLocks
import MostroApp.Lib.Utf8
import MostroApp.Api.Logging
import MostroApp.Api.Recovery
import MostroApp.Api.DmCoverage
import MostroApp.Mostro.Capabilities
import MostroApp.Nostr.Envelope
import MostroApp.Api.ChatAuthors
import MostroApp.Api.CashuWallet
import MostroApp.Lib.Owner
import MostroApp.Api.RelayRows
import MostroApp.Api.RelayRestart
import MostroApp.Nostr.Publish
import MostroApp.Mostro.Rates
import MostroApp.Lib.Reading
import MostroApp.Api.TradeTouch
import MostroApp.Api.RangeRemainder
import MostroApp.Api.Invoice
import MostroApp.Features.AddInvoice
import MostroApp.Api.OrderMarks
