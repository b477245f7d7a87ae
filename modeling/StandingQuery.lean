import StandingQuery.QueryIndex.History
import StandingQuery.Text.Token
import StandingQuery.Text.ParsedQuery
import StandingQuery.Text.Statement
import StandingQuery.Text.ConfigText
import StandingQuery.Engine
import StandingQuery.Script
import StandingQuery.Main
import StandingQuery.Proofs.Lifetime
import StandingQuery.Proofs.Analysis
import StandingQuery.Proofs.Buckets
import StandingQuery.Proofs.PartialStore
import StandingQuery.Proofs.Expirations
import StandingQuery.Proofs.PatternIndex
import StandingQuery.Proofs.Book
import StandingQuery.Proofs.Symmetric
import StandingQuery.Proofs.Propagation
import StandingQuery.Proofs.Caching
import StandingQuery.Proofs.Served
import StandingQuery.Proofs.JoinState
import StandingQuery.Proofs.Delivery
import StandingQuery.Proofs.Consistency
import StandingQuery.Proofs.Following
import StandingQuery.Proofs.Eviction
import StandingQuery.Proofs.Serving
import StandingQuery.Proofs.Inert
import StandingQuery.Proofs.Operations
import StandingQuery.Proofs.History
import StandingQuery.Proofs.StoreExactness
import StandingQuery.Proofs.Lasting
import StandingQuery.Proofs.BatchJoin
import StandingQuery.Proofs.Repetition
import StandingQuery.Proofs.Strategies
import StandingQuery.Proofs.Reachability
import StandingQuery.Proofs.EvictionReport
import StandingQuery.Proofs.EvictionSchedule
import StandingQuery.Proofs.JoinView
import StandingQuery.Proofs.Share
import StandingQuery.Proofs.Independence
import StandingQuery.Proofs.Subscribers
import StandingQuery.Proofs.Deferral
import StandingQuery.Proofs.Transcript
import StandingQuery.Proofs.Upkeep
import StandingQuery.Proofs.Handles
import StandingQuery.Proofs.Cancellation
import StandingQuery.Proofs.CleanupCounters
import StandingQuery.Proofs.QueryLifetimes
import StandingQuery.Proofs.Scanning
import StandingQuery.Proofs.Grammar
import StandingQuery.Proofs.Parsing
import StandingQuery.Proofs.Tokens
import StandingQuery.Proofs.Statement
import StandingQuery.Proofs.Printing
import StandingQuery.Proofs.Literal
import StandingQuery.Proofs.Spelling
import StandingQuery.Proofs.Layout
import StandingQuery.Proofs.Predicates
import StandingQuery.Proofs.Memory
import StandingQuery.Proofs.Modifiers
import StandingQuery.Proofs.Pipeline
import StandingQuery.Proofs.PatternGraph
import StandingQuery.Proofs.Lookup
import StandingQuery.Proofs.NaiveJoin
import StandingQuery.Proofs.Idempotence
import StandingQuery.Proofs.Deadlines
import StandingQuery.Proofs.Partners
import StandingQuery.Proofs.Worklist
import StandingQuery.Proofs.CheckedAnalysis
import StandingQuery.Proofs.CheckedIndex
import StandingQuery.Proofs.StoreHistory
