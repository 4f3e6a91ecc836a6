import InterBit.Storage.TrieClosure
import InterBit.Storage.TrieRoot
import InterBit.Storage.TrieSplit
import InterBit.Storage.TrieRace
import InterBit.StateMachine.TransactionHash
import InterBit.StateMachine.ParallelExecutor
import InterBit.StateMachine.BatchOrder
import InterBit.StateMachine.Replay
import InterBit.StateMachine.StateDBRace
import InterBit.StateMachine.EvictionLocks
import InterBit.StateMachine.CommitRace
import InterBit.StateMachine.Snapshot
import InterBit.Storage.CacheAccounting
import InterBit.Storage.PromotionRace
import InterBit.Consensus.Contiguity
import InterBit.Consensus.Proposals
import InterBit.Consensus.Authenticity
import InterBit.Consensus.HotStuffViews
import InterBit.Consensus.HotStuffCertificates
import InterBit.Consensus.HotStuffVoting
import InterBit.Consensus.HotStuffProposals
import InterBit.Consensus.ConsensusLocks
import InterBit.StateMachine.GroupIndependence
import InterBit.StateMachine.DependencyCompleteness
import InterBit.StateMachine.FailedTransaction
import InterBit.StateMachine.BlockAtomicity
import InterBit.StateMachine.BlockArithmetic
import InterBit.Dex.AmmLocks
import InterBit.Dex.Dilution
import InterBit.Dex.PoolOrientation
import InterBit.Dex.PoolIds
import InterBit.Dex.LiquidityRoundTrip
import InterBit.Dex.AmmQuote
import InterBit.Dex.SquareRoot
import InterBit.Dex.StableSwap
import InterBit.Dex.SmartRouter
import InterBit.Dex.PathCompleteness
import InterBit.Mev.CommitReveal
import InterBit.Mev.BatchOnce
import InterBit.Mev.DecryptedOnce
import InterBit.Mev.FairOrdering
import InterBit.Mev.PrivateDelivery
import InterBit.Mev.TransactionCodec
import InterBit.CrossChain.IbcDelivery
import InterBit.CrossChain.IbcSender
import InterBit.CrossChain.Quorum
import InterBit.CrossChain.HeaderRace
import InterBit.CrossChain.Inclusion
import InterBit.Layer2.Shards
import InterBit.Layer2.RollupChain
import InterBit.Layer2.Finalization
import InterBit.Layer2.ChallengeRace
import InterBit.Defi.FundingDirection
import InterBit.Defi.LiquidationThreshold
import InterBit.Defi.SettledOnce
import InterBit.Defi.FlashSolvency
import InterBit.Defi.FlashLoanLocks
import InterBit.Defi.Options
import InterBit.Hyperliquid.LockPeriod
import InterBit.Privacy.PrivateTransactions
import InterBit.Network.PoolInvariants
import InterBit.AiTrading.RiskManager
import InterBit.EvmCompat.ResultOrder
import InterBit.Optimization.BatchAnswers
import InterBit.Optimization.SlabRuns
import InterBit.Optimization.ArenaRuns
import InterBit.CrossChain.CrossChainManager
import InterBit.Security.KeyRuns
import InterBit.Storage.SnapshotManager
import InterBit.Layer2.Layer2Manager
import InterBit.Optimization.AsyncIo
import InterBit.Optimization.WriteQueue
import InterBit.Optimization.BufferSharing
import InterBit.Network.PeerNetwork
