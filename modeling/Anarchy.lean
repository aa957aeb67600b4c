import Anarchy.StorageMap
import Anarchy.BoundedVec
import Anarchy.History
import Anarchy.DeadlineIndex
import Anarchy.Incidence
import Anarchy.KzgVerify
import Anarchy.StorageFormulas
import Anarchy.StorageState
import Anarchy.StoragePallet
import Anarchy.StorageSteps
import Anarchy.ExpirySweep
import Anarchy.StorageMoves
import Anarchy.StorageStart
import Anarchy.MockRuntime
import Anarchy.HolderRegistry
import Anarchy.ChallengeQueue
import Anarchy.HolderLiability
import Anarchy.FragmentRepair
import Anarchy.RecordedShares
import Anarchy.FragmentRelease
import Anarchy.RewardFlow
import Anarchy.ChallengeCredits
import Anarchy.SlashHistory
import Anarchy.ClaimOrder
import Anarchy.HolderNodes
import Anarchy.Currency
import Anarchy.StorageStake
import Anarchy.FixedPoint
import Anarchy.Decay
import Anarchy.PopularityPallet
import Anarchy.PostPallet
import Anarchy.FeePallets
import Anarchy.ReactionPallet
import Anarchy.MessagingPallet
import Anarchy.FaucetPallet
import Anarchy.Runtime
import Anarchy.RuntimeSteps
import Anarchy.LocalRuntime
import Anarchy.NodeCollateral
import Anarchy.TokenSupply
import Anarchy.PopularityHook
import Anarchy.LivePosts
import Anarchy.DeletionQueue
import Anarchy.PostSightings
import Anarchy.GracePeriod
import Anarchy.ScoreTouches
import Anarchy.ScoreDrift
import Anarchy.PostAdmission
import Anarchy.ReactionSteps
import Anarchy.ReactionProofs
import Anarchy.ReactionPayouts
import Anarchy.ReactionCounts
import Anarchy.ReservedBalances
import Anarchy.MessagingSteps
import Anarchy.StealthReceipts
import Anarchy.ClaimAuthority
import Anarchy.DispatchIndex
import Anarchy.GovernedParameters
import Anarchy.GrandpaElection
import Anarchy.AuthoritySets
import Anarchy.FaucetClaims
import Anarchy.LittleEndian
import Anarchy.Blocks
import Anarchy.ByteReader
import Anarchy.Base64
import Anarchy.DensePolynomial
import Anarchy.UpperCoefficients
import Anarchy.UniformDraws
import Anarchy.MerkleTrees
import Anarchy.ScalarField
import Anarchy.VssPolynomials
import Anarchy.VssEncoding
import Anarchy.VssShares
import Anarchy.VssRecovery
import Anarchy.VssSecrecy
import Anarchy.KzgCompleteness
import Anarchy.ByteField
import Anarchy.KeyShares
import Anarchy.KeySecrecy
import Anarchy.Encryption
import Anarchy.ErasureCoding
import Anarchy.HybridShards
import Anarchy.ShardBytes
import Anarchy.DirectMessages
import Anarchy.DirectMessageDelivery
import Anarchy.MerkleProofs
import Anarchy.FragmentUpload
import Anarchy.EndpointPolicy
import Anarchy.NodeRegistry
import Anarchy.GossipMessages
import Anarchy.NodeGossip
import Anarchy.NodeLiveness
import Anarchy.GossipNetwork
import Anarchy.RequestAuth
import Anarchy.Json
import Anarchy.SignedUploads
import Anarchy.RandomXSeals
import Anarchy.FragmentFrames
import Anarchy.FragmentTables
import Anarchy.FragmentStore
import Anarchy.StoreQuota
import Anarchy.GarbageCollection
import Anarchy.ForgottenContent
import Anarchy.ChainFailover
import Anarchy.EndpointCaches
import Anarchy.UrlFilters
import Anarchy.DmStorage
import Anarchy.DmStore
import Anarchy.DmScan
import Anarchy.DmScanLoop
import Anarchy.AccountIsolation
import Anarchy.StealthKeys
import Anarchy.TextCoding
import Anarchy.PostCodec
import Anarchy.PowWorkers
import Anarchy.PausableMiner
import Anarchy.BinaryPower
import Anarchy.DecaySteps
import Anarchy.IntegerSqrt
import Anarchy.RewardShares
import Anarchy.ClaimRounding
import Anarchy.WindowCounts
import Anarchy.ReactionWindow
import Anarchy.DifficultyMoves
import Anarchy.HolderEviction
import Anarchy.RegistrationWindow
import Anarchy.CursorSweep
import Anarchy.PopularityRounds
import Anarchy.PopularityTurns
import Anarchy.WorkerPool
import Anarchy.PoolHealth
import Anarchy.SettledCalls
import Anarchy.ClaimPrecision
import Anarchy.BaseFeeRange
import Anarchy.HalvingSchedule
import Anarchy.SlidingWindow
import Anarchy.Lwma
import Anarchy.DifficultyPallet
import Anarchy.ElectionRanking
import Anarchy.ElectionHistory
import Anarchy.ShardTraps
import Anarchy.BurntNonces
import Anarchy.FragmentReads
import Anarchy.ShardCopies
import Anarchy.ShareRepair
import Anarchy.ShareCollection
import Anarchy.PushedShares
import Anarchy.ChallengeMonitor
import Anarchy.GossipSignatures
import Anarchy.EvictionOrder
import Anarchy.CallRateLimiter
import Anarchy.FragmentPlacement
import Anarchy.TextLines
import Anarchy.SetupFiles
import Anarchy.ProverProofs
import Anarchy.ReceiptOrders
import Anarchy.PpmRoots
import Anarchy.LongDivision
import Anarchy.CiphertextParts
import Anarchy.KeySort
import Anarchy.CoinSelection
import Anarchy.ParentLinks
import Anarchy.ThreadGrouping
import Anarchy.IntegerText
import Anarchy.MoralAmounts
import Anarchy.DmCostEstimate
import Anarchy.KeyBackup
import Anarchy.KeyedUnion
import Anarchy.DmBackup
import Anarchy.ReactionMining
import Anarchy.OrderedLog
import Anarchy.StealthScan
import Anarchy.StealthInbox
import Anarchy.KeyedList
import Anarchy.StealthWallet
import Anarchy.StealthPage
import Anarchy.Rebase
import Anarchy.AddressTexts
import Anarchy.StoreOrigins
import Anarchy.ContentNetwork
import Anarchy.ContentRecovery
