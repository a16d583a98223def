import OverDelimited.Main
import OverDelimited.Program.Edit
import OverDelimited.Source
import OverDelimited.Proofs.Symmetry
import OverDelimited.Proofs.Spine
import OverDelimited.Proofs.Walk
import OverDelimited.Proofs.Agreement
import OverDelimited.Proofs.PlainPass
import OverDelimited.Proofs.FixedPoint
import OverDelimited.Proofs.Outline
import OverDelimited.Proofs.SecondPass
import OverDelimited.Proofs.Content
import OverDelimited.Proofs.LineRules
import OverDelimited.Proofs.DelimiterRuns
import OverDelimited.Proofs.WiderMargin
import OverDelimited.Proofs.Indentation
import OverDelimited.Proofs.Shifting
import OverDelimited.Proofs.Location
import OverDelimited.Proofs.BuiltChain
import OverDelimited.Proofs.ChainText
import OverDelimited.Proofs.RecoveredTag
import OverDelimited.Proofs.UnevenRuns
import OverDelimited.Proofs.RepeatedPasses
import OverDelimited.Proofs.Surface
import OverDelimited.Proofs.JsonText
import OverDelimited.Proofs.Assignments
import OverDelimited.Proofs.Layering
import OverDelimited.Proofs.Commands
import OverDelimited.Proofs.PrintedText
import OverDelimited.Proofs.OpeningBreak
import OverDelimited.Proofs.DistinctPaths
import OverDelimited.Proofs.NodeFields
import OverDelimited.Proofs.KeyOrder
import OverDelimited.Proofs.LiteralShape
