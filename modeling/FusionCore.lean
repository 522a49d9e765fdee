import FusionCore.Lib.Table
import FusionCore.Lib.Checked
import FusionCore.Lib.TokenLedger
import FusionCore.Lib.LazyIndex
import FusionCore.Lib.Machine
import FusionCore.Math.FixedPoint
import FusionCore.Math.Redistribution
import FusionCore.Math.RateBucket
import FusionCore.Math.ReactorPool
import FusionCore.Core.State
import FusionCore.Core.SupplyTransition
import FusionCore.Core.Accrual
import FusionCore.Core.Bucket
import FusionCore.Core.Cdp
import FusionCore.Core.Ledger
import FusionCore.Core.Pool
import FusionCore.Core.Effect
import FusionCore.Core.Positions
import FusionCore.Core.Reactor
import FusionCore.Core.Redemption
import FusionCore.Core.Liquidation
import FusionCore.Core.Admin
import FusionCore.Core.Governance
import FusionCore.Core.Protocol
import FusionCore.Core.SupplyIdentity
import FusionCore.Core.Solvency
import FusionCore.Core.Aggregates
import FusionCore.Lib.ProductSum
import FusionCore.Core.PoolRuns
import FusionCore.Core.PoolGains
import FusionCore.Core.PoolIndex
import FusionCore.Core.Counters
import FusionCore.Core.Backstop
import FusionCore.Core.BaseRateDecay
import FusionCore.Core.Moves
import FusionCore.Core.Envelope
import FusionCore.Core.LiquidationProgress
import FusionCore.Core.RedemptionPasses
import FusionCore.Core.RedemptionFloor
import FusionCore.Core.RedemptionOrder
import FusionCore.Core.RedemptionFairness
import FusionCore.Math.Lifecycle
import FusionCore.Math.CapacityRound
import FusionCore.Math.NeutralDistribution
import FusionCore.Controller.State
import FusionCore.Controller.Pool
import FusionCore.Controller.Crank
import FusionCore.Controller.Deposit
import FusionCore.Controller.Plan
import FusionCore.Controller.Rebalance
import FusionCore.Controller.Preferences
import FusionCore.Controller.Effects
import FusionCore.Controller.PlanConservation
import FusionCore.Controller.PlanRuns
import FusionCore.Controller.NeutralRefinement
import FusionCore.Controller.PreferredWithdraw
import FusionCore.Controller.Machine
import FusionCore.Controller.Walk
import FusionCore.Controller.ChurnCap
import FusionCore.Controller.ReconcileCoverage
import FusionCore.Controller.WalkProgress
import FusionCore.System.Governance
import FusionCore.System.Safety
import FusionCore.System.GraceRuns
import FusionCore.Oracle.TwapExact
import FusionCore.System.OracleRuns
import FusionCore.System.PriceClock
import FusionCore.Core.Bookings
import FusionCore.System.MarketRuns
import FusionCore.System.Shutdown
import FusionCore.System.Limiter
import FusionCore.System.Backing
import FusionCore.System.Redistributed
import FusionCore.System.LiquidationCover
import FusionCore.Controller.Finish
import FusionCore.Controller.RecordMoves
import FusionCore.Controller.Streaks
import FusionCore.Controller.Draining
import FusionCore.Controller.DrainProgress
import FusionCore.Core.Openings
import FusionCore.Controller.PreferenceMoves
import FusionCore.Controller.DirectedShares
import FusionCore.System.Fusol
import FusionCore.System.DirectedOnce
import FusionCore.Lib.FlooredPower
import FusionCore.Lib.Outcome
import FusionCore.Lib.ByteReader
import FusionCore.Math.RayPower
import FusionCore.Math.ProductRescale
import FusionCore.Math.WideShim
import FusionCore.Controller.VoteState
import FusionCore.Controller.VoteRoundTrip
import FusionCore.Lib.Record
import FusionCore.System.Custody
import FusionCore.System.AccountViews
import FusionCore.System.Seats
