import JuliaLint.Rule.Basic

namespace JuliaLint
namespace QuoteBalance

/-!
Parity of quotation marks.  Both kinds of mark are counted together over the
whole text, comments included, and an odd sum is reported once.
-/

def isQuote (unit : CodeUnit) : Bool :=
  unit == CodeUnit.doubleQuote || unit == CodeUnit.singleQuote

def quoteCount (source : Text) : Nat :=
  source.countP isQuote

/-- One finding when the number of quotation marks is odd. -/
def findings (source : Text) : List Finding :=
  if quoteCount source % 2 = 0 then
    []
  else
    [Rule.quoteBalance.finding "Unbalanced quotes (odd count)" none []]

end QuoteBalance
end JuliaLint
