import CalcShell.Main
import CalcShell.Calc.Outline
import CalcShell.Session.Echo
import CalcShell.Session.Paired
import CalcShell.Session.Workspace
import CalcShell.Proofs.Calc.Arithmetic
import CalcShell.Proofs.Calc.Concatenation
import CalcShell.Proofs.Calc.Descents
import CalcShell.Proofs.Calc.Distinction
import CalcShell.Proofs.Calc.Folding
import CalcShell.Proofs.Calc.Footprints
import CalcShell.Proofs.Calc.Lexemes
import CalcShell.Proofs.Calc.Limit
import CalcShell.Proofs.Calc.Literals
import CalcShell.Proofs.Calc.Positions
import CalcShell.Proofs.Calc.Unclosed
import CalcShell.Proofs.Command.Language
import CalcShell.Proofs.Line.Pieces
import CalcShell.Proofs.Line.Remembering
import CalcShell.Proofs.Line.Screen
import CalcShell.Proofs.Line.Walking
import CalcShell.Proofs.Session.Batch
import CalcShell.Proofs.Session.Bindings
import CalcShell.Proofs.Session.Consulting
import CalcShell.Proofs.Session.Containment
import CalcShell.Proofs.Session.Finality
import CalcShell.Proofs.Session.InUnits
import CalcShell.Proofs.Session.Landing
import CalcShell.Proofs.Session.Outcomes
import CalcShell.Proofs.Session.Presentation
import CalcShell.Proofs.Session.Prompts
import CalcShell.Proofs.Session.Termination
import CalcShell.Text.ByteBuffer
