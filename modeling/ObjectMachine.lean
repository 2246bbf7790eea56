import ObjectMachine.Bytecode.Mnemonic
import ObjectMachine.Main
import ObjectMachine.Proofs.AssemblyRoundTrip
import ObjectMachine.Proofs.BackEdgeCounts
import ObjectMachine.Proofs.BuiltInPrograms
import ObjectMachine.Proofs.CacheSoundness
import ObjectMachine.Proofs.ControlPaths
import ObjectMachine.Proofs.CountingLoops
import ObjectMachine.Proofs.ExactDepth
import ObjectMachine.Proofs.FieldUpdates
import ObjectMachine.Proofs.FiniteTexts
import ObjectMachine.Proofs.HandOvers
import ObjectMachine.Proofs.HomeReceivers
import ObjectMachine.Proofs.InstalledMethods
import ObjectMachine.Proofs.IntegerTower
import ObjectMachine.Proofs.Lasting
import ObjectMachine.Proofs.LayoutHistories
import ObjectMachine.Proofs.LiteralTables
import ObjectMachine.Proofs.Partition
import ObjectMachine.Proofs.PassingArguments
import ObjectMachine.Proofs.PlainFields
import ObjectMachine.Proofs.ReceiverChains
import ObjectMachine.Proofs.ResolvedAccesses
import ObjectMachine.Proofs.Retries
import ObjectMachine.Proofs.SelfModification
import ObjectMachine.Proofs.SettledSites
import ObjectMachine.Proofs.SharedLists
import ObjectMachine.Proofs.SlotOperands
import ObjectMachine.Proofs.SlotPlacement
import ObjectMachine.Proofs.SpeculativeSend
import ObjectMachine.Proofs.SpelledLoops
import ObjectMachine.Proofs.StackSafety
import ObjectMachine.Proofs.StaticBinding
import ObjectMachine.Proofs.ThreadedPaths
import ObjectMachine.Proofs.TierTransparency
import ObjectMachine.Proofs.UnknownMessages
import ObjectMachine.Trace
