import CallByValue.Grammar
import CallByValue.Main
import CallByValue.Reduction.Step
import CallByValue.Proofs.Parser.Trees
import CallByValue.Proofs.Session.Failure
import CallByValue.Proofs.Session.Reload
import CallByValue.Proofs.Shell.Cutting
import CallByValue.Proofs.Shell.Invariant
import CallByValue.Proofs.Parser.Splicing
import CallByValue.Proofs.Parser.Alpha
import CallByValue.Proofs.Parser.Locality
import CallByValue.Proofs.Session.Independence
import CallByValue.Proofs.Interpreter.File
import CallByValue.Proofs.Term.Replacement
import CallByValue.Proofs.Reduction.BinderNames
import CallByValue.Proofs.Reduction.Tracing
import CallByValue.Proofs.Parser.Leftmost
import CallByValue.Proofs.Reduction.Results
import CallByValue.Proofs.Session.Underlining
import CallByValue.Proofs.Script.Groups
import CallByValue.Proofs.Shell.Complete
import CallByValue.Proofs.Term.Composition
import CallByValue.Proofs.Reduction.Weakening
import CallByValue.Proofs.Joining
import CallByValue.Proofs.Parser.Progress
import CallByValue.Proofs.Printer.Unambiguous
import CallByValue.Proofs.Term.Shifting
import CallByValue.Proofs.Printer.Renaming
import CallByValue.Proofs.Session.Defects
