import HermesDecomp.File.ReadSafety
import HermesDecomp.Transforms.SsaMeaning
import HermesDecomp.Transforms.CopiesMeaning
import HermesDecomp.Transforms.PropagateMeaning
import HermesDecomp.Transforms.ReservedWords
import HermesDecomp.Transforms.HoistedEmbedding
import HermesDecomp.Cascade.Verify
import HermesDecomp.Analysis.ReachingBindings
import HermesDecomp.Write.HasmValues
import HermesDecomp.Write.PackedRoots
import HermesDecomp.Transforms.StrippedCalls
import HermesDecomp.Write.KindRuns
import HermesDecomp.File.RegexChecks
import HermesDecomp.Write.Sessions
import HermesDecomp.Write.RelocatedImage
import HermesDecomp.Write.CreatedFile
import HermesDecomp.File.BigInt
import HermesDecomp.Analysis.Loops
import HermesDecomp.Analysis.Merge
import HermesDecomp.Transforms.SimplifyMeaning
import HermesDecomp.Analysis.ForLoops
import HermesDecomp.Transforms.DeadStoresMeaning
import HermesDecomp.Transforms.AliasesMeaning
import HermesDecomp.Transforms.LogicMeaning
import HermesDecomp.Transforms.PrintedText
import HermesDecomp.Transforms.LogicPatternsMeaning
import HermesDecomp.Transforms.FoldingMeaning
import HermesDecomp.Builder.DroppedHandlers
import HermesDecomp.Transforms.LoopVariables
import HermesDecomp.Analysis.PlannedLevels
import HermesDecomp.Analysis.Liveness
import HermesDecomp.Transforms.SanitizedNames
import HermesDecomp.Transforms.DeadBindings
import HermesDecomp.Write.SignedNumbers
import HermesDecomp.Pipeline.GlobMatch
import HermesDecomp.Transforms.EffectTests
import HermesDecomp.Pipeline.DependencyViews
import HermesDecomp.Analysis.ModuleIds
