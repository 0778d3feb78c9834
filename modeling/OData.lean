import OData.Main
import OData.Proofs.Filter.Operations
import OData.Proofs.Filter.Everywhere
import OData.Proofs.Filter.ClauseTree
import OData.Proofs.Filter.Grammar
import OData.Proofs.Value.Literal
import OData.Proofs.Filter.Reading
import OData.Proofs.Filter.LambdaScope
import OData.Proofs.Date.Text
import OData.Proofs.Filter.Canonical
import OData.Proofs.Document.Encoding
import OData.Proofs.Filter.Diagnostics
import OData.Proofs.Filter.Emptiness
import OData.Proofs.Document.Faults
import OData.Proofs.Session.Blocks
import OData.Proofs.Filter.Appending
import OData.Proofs.Filter.Records
import OData.Proofs.Request.Agreement
import OData.Proofs.Document.Drops
import OData.Proofs.Filter.Concatenation
import OData.Proofs.Query.Segments
import OData.Proofs.Document.OrderForms
import OData.Proofs.Document.Dates
import OData.Proofs.Binary64.Whole
import OData.Proofs.Document.MemberOrder
import OData.Proofs.Json.Integers
import OData.Proofs.Document.Faithful
import OData.Proofs.Document.Spellings
import OData.Proofs.Document.Numbers
import OData.Proofs.Value.Identity
import OData.Proofs.OrderBy.Items
import OData.Proofs.Filter.GroupKeys
import OData.Proofs.Filter.Insertions
import OData.Proofs.Json.Strings
import OData.Proofs.Json.Lists
import OData.Proofs.Json.Values
import OData.Proofs.Request.Saving
import OData.Proofs.Filter.Prefixing
