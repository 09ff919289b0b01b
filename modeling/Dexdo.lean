import Dexdo.TokenContractCalls
import Dexdo.TokenContractCharges
import Dexdo.TokenContractPayouts
import Dexdo.TokenContractInvariant
import Dexdo.TokenContractExits
import Dexdo.TokenContractEarmarks
import Dexdo.TokenContractStreaming
import Dexdo.TokenContractClaims
import Dexdo.TokenContractLedger
import Dexdo.TokenContractSplit
import Dexdo.TokenContractDisputes
import Dexdo.TokenContractExitCost
import Dexdo.TokenContractQuota
import Dexdo.TokenContractKeepers
import Dexdo.InferenceOrderBookCalls
import Dexdo.IntrusiveList
import Dexdo.InferenceOrderBookLists
import Dexdo.InferenceOrderBookMatching
import Dexdo.CircularWindow
import Dexdo.InferenceOrderBookStructure
import Dexdo.InferenceOrderBookAccounts
import Dexdo.InferenceOrderBookEscrow
import Dexdo.DealGetters
import Dexdo.SellerCapacity
import Dexdo.SellerCapacitySplit
import Dexdo.SellerCapacityCeiling
import Dexdo.DealConservation
import Dexdo.TokenContractConservation
import Dexdo.TokenContractGetters
import Dexdo.InferenceOrderBookMessages
import Dexdo.StreamMachine
import Dexdo.TokenContractProjection
import Dexdo.InferenceOrderBookPriority
import Dexdo.InferenceOrderBookGreedy
import Dexdo.InferenceOrderBookMoves
import Dexdo.InferenceOrderBookOffers
import Dexdo.OfferAnswers
import Dexdo.InferenceOrderBookContinuation
import Dexdo.InferenceOrderBookPrechecks
import Dexdo.ExecutableQuote
import Dexdo.QuoteExecution
import Dexdo.DealGasReserve
import Dexdo.OpenAiUpstream
import Dexdo.GatewayRelay
import Dexdo.BookEvents
import Dexdo.BookEventMirror
import Dexdo.DexOrderBookState
import Dexdo.DexOrderBookCalls
import Dexdo.DexOrderBookLists
import Dexdo.DexOrderBookMatching
import Dexdo.DexOrderBookStructure
import Dexdo.CappedWalk
import Dexdo.DexOrderBookPriceTime
import Dexdo.DexOrderBookDrains
import Dexdo.SubscriptionKeeper
import Dexdo.SubscriptionKeeperChain
import Dexdo.SubscriptionKeeperPlan
import Dexdo.RouteBudget
import Dexdo.RouteBudgetMoves
import Dexdo.RouteBudgetRuns
import Dexdo.WeeklyBudget
import Dexdo.WeeklyBudgetCeiling
import Dexdo.WeeklyBudgetSteps
import Dexdo.WeeklyBudgetRuns
import Dexdo.TextForms
import Dexdo.Addresses
import Dexdo.SessionSettle
import Dexdo.SessionSettleOnce
import Dexdo.SessionSettleRuns
import Dexdo.TokenContractStakes
import Dexdo.TokenContractRebate
import Dexdo.InferenceOrderBookAtomic
import Dexdo.BuyTarget
import Dexdo.PoolWriteLock
import Dexdo.PoolWriteLockRuns
import Dexdo.SettlementReceipts
import Dexdo.TokenContractEvents
import Dexdo.SettlementRecognition
import Dexdo.DealLedgerReplay
import Dexdo.MatchWatchCursor
import Dexdo.MatchWatchDelivery
import Dexdo.GreedyPurchase
import Dexdo.QuoteOptimality
import Dexdo.SubscriptionClaimCap
import Dexdo.CursorWalk
import Dexdo.BookEventPages
import Dexdo.TextNumbers
import Dexdo.WithdrawGateReader
import Dexdo.WithdrawTokens
import Dexdo.SellerCapacityWrites
import Dexdo.InferenceOrderBookPlacements
import Dexdo.InferenceOrderBookPostOnly
import Dexdo.InferenceOrderBookFills
import Dexdo.InferenceOrderBookRecord
import Dexdo.InferenceOrderBookAllOrNone
import Dexdo.ShellAmounts
import Dexdo.FallibleSteps
import Dexdo.FramedReads
import Dexdo.ProviderFraming
import Dexdo.SessionSettleClosed
import Dexdo.GrantedPrefix
import Dexdo.CanonStream
import Dexdo.CanonStreamRuns
import Dexdo.ConsumerRender
import Dexdo.ConsumerRenderCap
import Dexdo.ConsumerRenderFate
import Dexdo.NoteTopup
import Dexdo.BookEventWindow
import Dexdo.OwnerOrders
import Dexdo.NoteSecretHex
import Dexdo.GregorianCalendar
import Dexdo.RenderUnixUtc
import Dexdo.DivisorCoins
import Dexdo.SellPlan
import Dexdo.RunLatches
import Dexdo.BuyerContinuity
import Dexdo.BuyerContinuityRuns
import Dexdo.ExchangeSort
import Dexdo.RecentRing
import Dexdo.ReferencePrice
import Dexdo.RelayAccounting
import Dexdo.AddressRoundTrips
import Dexdo.SettlementReaders
import Dexdo.DealEnds
