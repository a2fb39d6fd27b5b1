import Mend.Rule.Android
import Mend.Rule.ControlFlow
import Mend.Rule.Flutter
import Mend.Rule.Ios
import Mend.Rule.React

/-!
# The catalogue of rules
-/

namespace Mend.Rule

/-- Every rule, in the order in which rules of one category are tried. -/
def catalogue : List Rule :=
  React.rules ++ Flutter.rules ++ Ios.rules ++ Android.rules ++ ControlFlow.rules

/-- The rule with an id. -/
def find? (id : String) : Option Rule := catalogue.find? fun r => r.id == id

/-- The ids of all rules, in alphabetical order. -/
def ids : List String := (catalogue.map Rule.id).mergeSort (· ≤ ·)

/-- The rules of a platform, category by category; a category that is listed twice counts twice. -/
def ofCategories (platform : Platform) (categories : List Category) : List Rule :=
  categories.flatMap fun c =>
    catalogue.filter fun r => r.platforms.contains platform && r.category = c

end Mend.Rule
