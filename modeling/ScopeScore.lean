import ScopeScore.Metrics
import ScopeScore.Main
import ScopeScore.Proofs.Analyzer.Conservation
import ScopeScore.Proofs.Analyzer.Refusal
import ScopeScore.Proofs.Analyzer.Isolation
import ScopeScore.Proofs.Analyzer.Parentheses
import ScopeScore.Proofs.Analyzer.Tokens
import ScopeScore.Proofs.Analyzer.Texts
import ScopeScore.Proofs.Analyzer.Assignments
import ScopeScore.Proofs.Metrics.Totals
import ScopeScore.Proofs.Report.Order
import ScopeScore.Proofs.Report.Findings
import ScopeScore.Proofs.Report.Nesting
import ScopeScore.Proofs.Report.Columns
import ScopeScore.Proofs.Report.Threshold
import ScopeScore.Proofs.Report.Markers
import ScopeScore.Proofs.Files.Collection
import ScopeScore.Proofs.CommandLine.Verdict
import ScopeScore.Proofs.CommandLine.Escape
import ScopeScore.Proofs.Source.Desk
import ScopeScore.Proofs.Scope.Literals
import ScopeScore.Proofs.Report.Lossless
