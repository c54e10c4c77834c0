import ShaderKit.ContainerBuilding
import ShaderKit.MaskWords
import ShaderKit.MemoryCache
import ShaderKit.ProgramBuilding
import ShaderKit.Shader
import ShaderKit.SignatureBuilding
import ShaderKit.SpecBlock
import ShaderKit.StateReplay
import ShaderKit.Proofs.PairingTables
import ShaderKit.Proofs.PairingGraph
import ShaderKit.Proofs.ManagerRuns
import ShaderKit.Proofs.PipelineInstances
import ShaderKit.Proofs.ManagerThreads
import ShaderKit.Proofs.OperandRoundTrip
import ShaderKit.Proofs.ProgramRoundTrip
import ShaderKit.Proofs.NestedOperands
import ShaderKit.Proofs.BlockTiling
import ShaderKit.Proofs.StreamedAnalysis
import ShaderKit.Proofs.ReplayPools
import ShaderKit.Proofs.CacheRecords
import ShaderKit.Proofs.RecordedReplay
import ShaderKit.Proofs.ByteSlices
import ShaderKit.Proofs.TextBytes
import ShaderKit.Proofs.ContainerAcceptance
import ShaderKit.Proofs.ContainerRoundTrip
import ShaderKit.Proofs.SignatureRoundTrip
import ShaderKit.Proofs.ChunkLookup
import ShaderKit.Proofs.InterfaceIdentity
import ShaderKit.Proofs.ReplayConfluence
import ShaderKit.Proofs.CallStages
import ShaderKit.Proofs.CounterAccounts
import ShaderKit.Proofs.TokenReaders
import ShaderKit.Proofs.StreamConcatenation
import ShaderKit.Proofs.IgnoredTokens
import ShaderKit.Proofs.LoneObjects
import ShaderKit.Proofs.ObjectIdentity
import ShaderKit.Proofs.OperandParts
import ShaderKit.Proofs.ExtendedTokens
import ShaderKit.Proofs.FaultLocations
import ShaderKit.Proofs.UsageFlags
import ShaderKit.Proofs.PairingNumbers
import ShaderKit.Proofs.UsageSteps
import ShaderKit.Proofs.SignatureChoice
import ShaderKit.Proofs.SignatureAcceptance
import ShaderKit.Proofs.PlaneSums
import ShaderKit.Proofs.FailedCompilations
import ShaderKit.Proofs.ProgramAcceptance
import ShaderKit.Proofs.VariantConstants
import ShaderKit.Proofs.DynamicOffsets
import ShaderKit.Proofs.SlotDefinitions
import ShaderKit.Proofs.PairedSlots
import ShaderKit.Proofs.OffsetLimits
import ShaderKit.Proofs.CacheHistory
import ShaderKit.Proofs.BoundSlots
import ShaderKit.Proofs.OptionTexts
import ShaderKit.Proofs.WellFormedInstructions
import ShaderKit.Proofs.SelfDelimiting
import ShaderKit.Proofs.SpecHistory
import ShaderKit.Proofs.NameTexts
import ShaderKit.Proofs.NamedChunks
