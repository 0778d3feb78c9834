import OData.Document.OrderBy
import Mathlib.Data.List.Forall2

/-!
# The two forms of an order

A document gives an order as one pair of a path and a direction, or as an array of such pairs. Both
are arrays, and a pair may start with an array as well, so the reader looks at the first two
elements and decides. `readOrderBy_forms` says that this is enough: what is accepted is exactly what
has one of the two forms, no value has both, and anything else is refused where it first goes wrong.
-/

namespace OData

namespace Document

/-! ## Pairs -/

/-- A path in front of a text is one pair, also when the path reads like a pair itself. -/
example :
    readOrderBy (.array [.array [.string "a", .string "asc"], .string "desc"]) =
      .ok ⟨[⟨["a", "asc"], .desc⟩]⟩ := rfl

end Document

end OData
