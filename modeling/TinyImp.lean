import TinyImp.Main
import TinyImp.Proofs.Actions
import TinyImp.Proofs.Runs
import TinyImp.Proofs.Execution
import TinyImp.Proofs.ExprLowering
import TinyImp.Proofs.Labels
import TinyImp.Proofs.Lowering
import TinyImp.Proofs.Results
import TinyImp.Proofs.Scope
import TinyImp.Proofs.Backends
import TinyImp.Proofs.Safety
import TinyImp.Proofs.Grammar
import TinyImp.Proofs.Parsers
import TinyImp.Proofs.ExprParsing
import TinyImp.Proofs.Parsing
import TinyImp.Proofs.Lexemes
import TinyImp.Proofs.Scanning
import TinyImp.Proofs.Lines
import TinyImp.Proofs.ParserLines
import TinyImp.Proofs.Layout
import TinyImp.Proofs.ErrorLines
import TinyImp.Proofs.Nesting
import TinyImp.Proofs.Spelling
import TinyImp.Proofs.Rendering
import TinyImp.Proofs.Exactness
import TinyImp.Proofs.ScopeEvents
import TinyImp.Proofs.Temporaries
import TinyImp.Proofs.LowTrees
import TinyImp.Proofs.Limits
import TinyImp.Proofs.LineBreaks
import TinyImp.Proofs.Relexing
import TinyImp.Proofs.ExprAt
import TinyImp.Proofs.Provenance
import TinyImp.Proofs.Footprint
import TinyImp.Proofs.Atomicity
import TinyImp.Proofs.Tightening
import TinyImp.Proofs.Finality
import TinyImp.Proofs.Composition
import TinyImp.Proofs.Texts
import TinyImp.Proofs.CodeText
import TinyImp.Proofs.ExprText
import TinyImp.Proofs.OutlineText
import TinyImp.Proofs.ExprRuns
import TinyImp.Proofs.Relocation
import TinyImp.Proofs.Progress
import TinyImp.Proofs.Loops
import TinyImp.Proofs.Tables
