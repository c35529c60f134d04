import ElementMarkup.Table

/-!
Finished components by name.
-/

namespace ElementMarkup

/-- The HTML of each component that is finished. -/
abbrev Components := Table String String

end ElementMarkup
