import HitScript.Action
import HitScript.Assembly.Assemble
import HitScript.Assembly.Error
import HitScript.Assembly.Operand
import HitScript.Assembly.Outline
import HitScript.Assembly.Statement
import HitScript.Assembly.Token
import HitScript.Codec
import HitScript.Command.Assembler
import HitScript.Command.Dialogue
import HitScript.Command.FileTree
import HitScript.Command.Path
import HitScript.Command.Player
import HitScript.Config
import HitScript.Dice
import HitScript.Error
import HitScript.Event
import HitScript.Execution
import HitScript.Fault
import HitScript.Fetch
import HitScript.Host
import HitScript.Image
import HitScript.Instruction
import HitScript.Level
import HitScript.Loading
import HitScript.Machine
import HitScript.Main
import HitScript.Notice
import HitScript.Numeral
import HitScript.Opcode
import HitScript.Proofs.AssemblyStages
import HitScript.Proofs.BranchFlags
import HitScript.Proofs.BudgetSlicing
import HitScript.Proofs.CanonicalCodec
import HitScript.Proofs.CodeConfinement
import HitScript.Proofs.CodecRoundTrip
import HitScript.Proofs.CommandFiles
import HitScript.Proofs.ContainerFormat
import HitScript.Proofs.ControlFlow
import HitScript.Proofs.ErrorPlaces
import HitScript.Proofs.EventLists
import HitScript.Proofs.EventReplay
import HitScript.Proofs.FaultAtomicity
import HitScript.Proofs.FrameOrder
import HitScript.Proofs.HandlerNotes
import HitScript.Proofs.HitlistRounds
import HitScript.Proofs.InstructionSweep
import HitScript.Proofs.Killing
import HitScript.Proofs.LabelAddresses
import HitScript.Proofs.LabelPlacement
import HitScript.Proofs.LineTokens
import HitScript.Proofs.LoopTargets
import HitScript.Proofs.LoopedNotes
import HitScript.Proofs.MachineRuns
import HitScript.Proofs.NameFolding
import HitScript.Proofs.NoteLedger
import HitScript.Proofs.NumeralGrammar
import HitScript.Proofs.OpcodeEffects
import HitScript.Proofs.OpcodeHistory
import HitScript.Proofs.PlainText
import HitScript.Proofs.PropertyIsolation
import HitScript.Proofs.RandomChoice
import HitScript.Proofs.RegistryHistory
import HitScript.Proofs.SchedulerRuns
import HitScript.Proofs.ScriptImage
import HitScript.Proofs.SourceLayout
import HitScript.Proofs.SourceText
import HitScript.Proofs.SubroutineLives
import HitScript.Proofs.Suspension
import HitScript.Proofs.SymbolLists
import HitScript.Proofs.SymbolicCode
import HitScript.Proofs.TimedWaits
import HitScript.Proofs.TokenRuns
import HitScript.Proofs.TrackSelection
import HitScript.Proofs.Unloading
import HitScript.Proofs.VariableMemory
import HitScript.Proofs.VariableStores
import HitScript.Proofs.WrittenNumerals
import HitScript.Registry
import HitScript.Rehearsal
import HitScript.Scheduler
import HitScript.SoundBank
import HitScript.Subroutine
import HitScript.Text
import HitScript.TvOn
import HitScript.Variable
