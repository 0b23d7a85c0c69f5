import FlatAsm.Main
import FlatAsm.Session
import FlatAsm.Proofs.SymbolicValue
import FlatAsm.Proofs.SymbolicArithmetic
import FlatAsm.Proofs.FieldBytes
import FlatAsm.Proofs.FieldCodec
import FlatAsm.Proofs.ImageSegments
import FlatAsm.Proofs.RelocatedFields
import FlatAsm.Proofs.ImageHistory
import FlatAsm.Proofs.RelocationOutcome
import FlatAsm.Proofs.ParserOutput
import FlatAsm.Proofs.ParserRuns
import FlatAsm.Proofs.ItemLayout
import FlatAsm.Proofs.TwoPass
import FlatAsm.Proofs.AssemblyOutcome
import FlatAsm.Proofs.KnownLabels
import FlatAsm.Proofs.Decoding
import FlatAsm.Proofs.StatementGrammar
import FlatAsm.Proofs.ExpressionMeaning
import FlatAsm.Proofs.FormulaBounds
import FlatAsm.Proofs.LineScanning
import FlatAsm.Proofs.ParserSimulation
import FlatAsm.Proofs.LineComposition
import FlatAsm.Proofs.AppendedCode
import FlatAsm.Proofs.LabelRenaming
import FlatAsm.Proofs.ParserNames
import FlatAsm.Proofs.StatementTiling
import FlatAsm.Proofs.Lexemes
import FlatAsm.Proofs.SourceSpans
import FlatAsm.Proofs.ParserInvariants
import FlatAsm.Proofs.ItemLines
import FlatAsm.Proofs.SessionHistory
import FlatAsm.Proofs.EncodableInstructions
import FlatAsm.Proofs.RunEffects
import FlatAsm.Proofs.DefaultWidth
import FlatAsm.Proofs.RepeatedData
import FlatAsm.Proofs.OperandOrder
import FlatAsm.Proofs.TokenLayout
import FlatAsm.Proofs.LayoutIndependence
import FlatAsm.Proofs.TokenValues
import FlatAsm.Proofs.WrittenSums
import FlatAsm.Proofs.ConstantNames
import FlatAsm.Proofs.WrittenTokens
import FlatAsm.Proofs.WrittenInstructions
import FlatAsm.Proofs.StatementLines
import FlatAsm.Proofs.StatementBytes
import FlatAsm.Proofs.PredefinedNames
import FlatAsm.Proofs.DataValues
