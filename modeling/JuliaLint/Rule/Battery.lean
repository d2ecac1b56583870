import JuliaLint.Rule.BlockBalance
import JuliaLint.Rule.CatchSyntax
import JuliaLint.Rule.QuoteBalance
import JuliaLint.Rule.MultiCharLiteral
import JuliaLint.Rule.IndentConsistency
import JuliaLint.Rule.RedundantConversion
import JuliaLint.Rule.VagueFilter
import JuliaLint.Rule.ForeignOperator
import JuliaLint.Rule.NegatedMembership

namespace JuliaLint
namespace Rule

/-!
The battery of rules: what each of the nine finds in a script.
-/

def findings : Rule → Text → List Finding
  | blockBalance => BlockBalance.findings
  | catchSyntax => CatchSyntax.findings
  | quoteBalance => QuoteBalance.findings
  | multiCharLiteral => MultiCharLiteral.findings
  | indentConsistency => IndentConsistency.findings
  | redundantConversion => RedundantConversion.findings
  | vagueFilter => VagueFilter.findings
  | foreignOperator => ForeignOperator.findings
  | negatedMembership => NegatedMembership.findings

end Rule
end JuliaLint
