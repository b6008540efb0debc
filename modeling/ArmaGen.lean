import ArmaGen.Engine
import ArmaGen.Main
import ArmaGen.Project.Create
import ArmaGen.Proofs.Datatype
import ArmaGen.Proofs.Emit.Report
import ArmaGen.Proofs.Infer.Passes
import ArmaGen.Proofs.Project.Declare
import ArmaGen.Proofs.Project.Line
import ArmaGen.Proofs.Project.Prune
import ArmaGen.Proofs.Project.Summary
import ArmaGen.Proofs.Rule.Access
import ArmaGen.Proofs.Rule.Division
import ArmaGen.Proofs.Rule.Header
import ArmaGen.Proofs.Script.Translate
import ArmaGen.Proofs.Supplement.Text
import ArmaGen.Proofs.Syntax.Condition
import ArmaGen.Proofs.Syntax.Part
import ArmaGen.Proofs.Syntax.Stacked
import ArmaGen.Proofs.Text.Decrement
import ArmaGen.Workload.Run
