import KernelReplay.Json.Reader
import KernelReplay.Machine.State.Holdings
import KernelReplay.Machine.State.Lemmas
import KernelReplay.Replay
import KernelReplay.Signal.Bus
import KernelReplay.Table.Lemmas
import KernelReplay.Trace.EventText
import KernelReplay.Tracer.SettingsText
import KernelReplay.Update.Laws
import KernelReplay.Update.Lemmas
import KernelReplay.Proofs.ByteConservation
import KernelReplay.Proofs.ByteTotals
import KernelReplay.Proofs.CallSteps
import KernelReplay.Proofs.DescriptorViews
import KernelReplay.Proofs.EventReadings
import KernelReplay.Proofs.Frames
import KernelReplay.Proofs.PendingCalls
import KernelReplay.Proofs.Runs
import KernelReplay.Proofs.SyscallPairing
import KernelReplay.Proofs.SyscallRules
import KernelReplay.Proofs.TableRules
import KernelReplay.Proofs.TableSteps
import KernelReplay.Proofs.TableSums
import KernelReplay.Machine.State.Facets
import KernelReplay.Machine.State.Reworks
import KernelReplay.Update.Totality
import KernelReplay.Proofs.FacetFrames
import KernelReplay.Proofs.FacetSteps
import KernelReplay.Proofs.FacetRuns
import KernelReplay.Proofs.InterruptSteps
import KernelReplay.Proofs.SoftIrqPhases
import KernelReplay.Proofs.BlockSteps
import KernelReplay.Proofs.RequestWays
import KernelReplay.Proofs.BlockLedger
import KernelReplay.Proofs.StoredTimes
import KernelReplay.Proofs.TimeOrder
import KernelReplay.Proofs.RangeSafety
import KernelReplay.Proofs.ByteSplits
import KernelReplay.Proofs.BlockPairing
import KernelReplay.Proofs.ExitSequences
import KernelReplay.Proofs.CountersTold
import KernelReplay.Machine.State.Links
import KernelReplay.Proofs.StandingFrames
import KernelReplay.Proofs.LinkFrames
import KernelReplay.Proofs.LinkSteps
import KernelReplay.Proofs.WaitSteps
import KernelReplay.Proofs.WakeupLatency
import KernelReplay.Proofs.Coherence
import KernelReplay.Proofs.DescriptorVisibility
import KernelReplay.Proofs.GroupTables
import KernelReplay.Proofs.Veils
import KernelReplay.Proofs.VeiledRules
import KernelReplay.Proofs.SeparateParts
import KernelReplay.Proofs.PageSpellings
import KernelReplay.Proofs.DispatchOrder
import KernelReplay.Proofs.PagePressure
import KernelReplay.Proofs.HardIrqPairing
import KernelReplay.Proofs.Courses
import KernelReplay.Proofs.ReadAlike
import KernelReplay.Proofs.EventSpellings
import KernelReplay.Proofs.JsonReadback
import KernelReplay.Proofs.Serialization
import KernelReplay.Proofs.JsonSerialization
import KernelReplay.Proofs.EventReadback
import KernelReplay.Proofs.PriorityOffset
import KernelReplay.Proofs.SettledRequests
import KernelReplay.Proofs.TableEffects
import KernelReplay.Proofs.TableFrames
import KernelReplay.Proofs.FailedCalls
import KernelReplay.Proofs.DescriptorLives
import KernelReplay.Proofs.DeferredGuess
import KernelReplay.Proofs.RemapChains
import KernelReplay.Proofs.SnapshotFolds
import KernelReplay.Proofs.InheritedTables
import KernelReplay.Proofs.InterruptedReading
import KernelReplay.Proofs.VersionGrammar
import KernelReplay.Proofs.PriorityFrames
import KernelReplay.Proofs.PriorityNotices
import KernelReplay.Proofs.DescriptorCopies
import KernelReplay.Proofs.UnmatchedPages
