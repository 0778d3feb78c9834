import OData.Filter.Expression
import OData.OrderBy

/-!
# Query strings

The options of a query become segments in a fixed order, each present at most once, with `&` between
them. An option without content makes no segment, and a query without segments leaves the address as
it is.
-/

namespace OData

structure QueryOptions where
  select : List String := []
  expand : List String := []
  filter : Option Filter := none
  top : Option UInt64 := none
  skip : Option UInt64 := none
  orderBy : Option OrderBy := none
  count : Bool := false
deriving Inhabited

/-- The segments in their order of appearance. -/
inductive SegmentKey where
  | select | expand | filter | top | skip | orderBy | count
deriving DecidableEq, Repr

def SegmentKey.name : SegmentKey → String
  | select => "$select"
  | expand => "$expand"
  | filter => "$filter"
  | top => "$top"
  | skip => "$skip"
  | orderBy => "$orderby"
  | count => "$count"

structure Segment where
  key : SegmentKey
  content : String
deriving DecidableEq, Repr

def Segment.text (segment : Segment) : String := segment.key.name ++ "=" ++ segment.content

namespace QueryOptions

/-- The expression of the filter; without a filter there is nothing to compile. -/
def filterExpression (options : QueryOptions) : Compiled String :=
  match options.filter with
  | some filter => filter.compile
  | none => pure ""

/-- A list of names makes a segment unless it is empty. -/
def namesSegment (key : SegmentKey) (names : List String) : List Segment :=
  if names.isEmpty then [] else [⟨key, ",".intercalate names⟩]

def numberSegment (key : SegmentKey) : Option UInt64 → List Segment
  | some n => [⟨key, toString n.toNat⟩]
  | none => []

/-- The segments of the options whose filter compiles to `expression`. -/
def segments (options : QueryOptions) (expression : String) : List Segment :=
  namesSegment .select options.select ++
  namesSegment .expand options.expand ++
  (if expression.isEmpty then [] else [⟨.filter, expression⟩]) ++
  numberSegment .top options.top ++
  numberSegment .skip options.skip ++
  (match options.orderBy with
    | some order => if order.isEmpty then [] else [⟨.orderBy, order.text⟩]
    | none => []) ++
  (if options.count then [⟨.count, "true"⟩] else [])

/-- The query string with the report of compiling the filter. -/
def compile (options : QueryOptions) : Compiled String :=
  return "&".intercalate ((options.segments (← options.filterExpression)).map Segment.text)

def queryString (options : QueryOptions) : String := options.compile.value

end QueryOptions

/-- The address followed by the query, if there is one. -/
def withQuery (base query : String) : String :=
  if query.isEmpty then base else base ++ "?" ++ query

/-- The address of the resource with these options; without options it is the address alone. -/
def urlOf (base : String) (options : Option QueryOptions) : String :=
  withQuery base (match options with
    | some options => options.queryString
    | none => "")

end OData
