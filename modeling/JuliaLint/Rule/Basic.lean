import JuliaLint.Finding

namespace JuliaLint

/-!
The nine rules.  Each has a code by which configurations and findings name it,
a category, and the severity of its findings unless a configuration says
otherwise.  The order of `Rule.all` is the order of findings in a report; the
only rule that proposes edits comes last.
-/

/-- The rules that a script is held to. -/
inductive Rule where
  /-- As many function headers as lines that hold only `end`. -/
  | blockBalance
  /-- A `catch` names its variable and ends it with a semicolon. -/
  | catchSyntax
  /-- The number of quotation marks is even. -/
  | quoteBalance
  /-- Apostrophes delimit a single character. -/
  | multiCharLiteral
  /-- Lines are indented by multiples of four. -/
  | indentConsistency
  /-- A numeric literal needs no conversion. -/
  | redundantConversion
  /-- A filter over `not in` deserves a look at its quotes. -/
  | vagueFilter
  /-- Keywords and operators of other languages. -/
  | foreignOperator
  /-- A quoted operand of `not in`, which can be turned into a negated test. -/
  | negatedMembership
  deriving DecidableEq, Repr

namespace Rule

/-- Every rule, in the order in which findings are reported. -/
def all : List Rule :=
  [blockBalance, catchSyntax, quoteBalance, multiCharLiteral, indentConsistency,
    redundantConversion, vagueFilter, foreignOperator, negatedMembership]

def code : Rule → String
  | blockBalance => "BLOCK_BALANCE"
  | catchSyntax => "CATCH_SYNTAX"
  | quoteBalance => "QUOTE_BALANCE"
  | multiCharLiteral => "MULTI_CHAR_LITERAL"
  | indentConsistency => "INDENT_CONSISTENCY"
  | redundantConversion => "REDUNDANT_CONVERSION"
  | vagueFilter => "VAGUE_FILTER"
  | foreignOperator => "FOREIGN_OPERATOR"
  | negatedMembership => "NEGATED_MEMBERSHIP"

def category : Rule → Category
  | blockBalance | catchSyntax => .blocks
  | quoteBalance | multiCharLiteral => .strings
  | indentConsistency => .formatting
  | redundantConversion | vagueFilter | foreignOperator | negatedMembership => .antiPatterns

def defaultSeverity : Rule → Severity
  | blockBalance | catchSyntax | quoteBalance | multiCharLiteral | foreignOperator => .error
  | indentConsistency | vagueFilter => .warning
  | redundantConversion | negatedMembership => .info

def ofCode? (code : String) : Option Rule :=
  all.find? fun rule => rule.code == code

/-- A finding of the rule, with its default severity. -/
def finding (rule : Rule) (message : Text) (position? : Option Position)
    (edits : List Edit) : Finding where
  code := rule.code
  category := rule.category
  severity := rule.defaultSeverity
  message := message
  position? := position?
  edits := edits

theorem mem_all (rule : Rule) : rule ∈ all := by
  cases rule <;> decide

/-- Different rules have different codes. -/
theorem code_injective {first second : Rule} (same : first.code = second.code) :
    first = second := by
  revert same
  cases first <;> cases second <;> decide

/-- A rule is found by its own code. -/
theorem ofCode?_code (rule : Rule) : ofCode? rule.code = some rule := by
  cases rule <;> decide

theorem code_of_ofCode? {code : String} {rule : Rule} (found : ofCode? code = some rule) :
    rule.code = code := by
  have named : (rule.code == code) = true :=
    List.find?_some (p := fun rule : Rule => rule.code == code) found
  exact beq_iff_eq.mp named

end Rule
end JuliaLint
