import MenuPages.Text.Basic
import MenuPages.Text.Blank
import MenuPages.Text.Utf8
import MenuPages.Text.Range
import MenuPages.Text.Unprinted
import MenuPages.Text.Joining
import MenuPages.Text.Unseen
import MenuPages.Text.Quoted
import MenuPages.Markup.Escape
import MenuPages.Markup.Entity
import MenuPages.Markup.Buffer
import MenuPages.Markup.Sink
import MenuPages.Event
import MenuPages.Template.Token
import MenuPages.Template.Scope
import MenuPages.Template.Node
import MenuPages.Template.Data
import MenuPages.Template.Frame
import MenuPages.Template.Render
import MenuPages.Number.Rounding
import MenuPages.Number.Digits
import MenuPages.Number.Binary64
import MenuPages.Number.Shortest
import MenuPages.Price
import MenuPages.Head.Element
import MenuPages.Head.Scan
import MenuPages.Checksum.Md5
import MenuPages.Checksum.Slug
import MenuPages.Document.Split
import MenuPages.Menu.Basic
import MenuPages.Menu.Listing
import MenuPages.Menu.Wording
import MenuPages.Markup.Tree
import MenuPages.Viewer.Entry
import MenuPages.Viewer.Layout
import MenuPages.Viewer.Page
import MenuPages.Head.Document
import MenuPages.Head.Injection
import MenuPages.Head.Session
import MenuPages.Json.Fault
import MenuPages.Json.Quote
import MenuPages.Json.Numeral
import MenuPages.Json.Skip
import MenuPages.Json.Reader
import MenuPages.Json.Record
import MenuPages.Menu.Decode
import MenuPages.Proofs.Template.Canonical
import MenuPages.Proofs.Template.Evaluation
import MenuPages.Proofs.Head.Memory
import MenuPages.Proofs.Head.Ownership
import MenuPages.Proofs.Head.Slots
import MenuPages.Proofs.Head.Accounting
import MenuPages.Proofs.Head.Runs
import MenuPages.Proofs.Head.Convergence
import MenuPages.Proofs.Head.Independence
import MenuPages.Proofs.Head.Attributes
import MenuPages.Proofs.Markup.Delivery
import MenuPages.Proofs.Template.Confinement
import MenuPages.Proofs.Viewer.Visibility
import MenuPages.Proofs.Head.Serialization
import MenuPages.Proofs.Template.Replacement
import MenuPages.Proofs.Document.Markers
import MenuPages.Proofs.Document.FirstElement
import MenuPages.Proofs.Head.Regions
import MenuPages.Proofs.Number.Digits
import MenuPages.Proofs.Json.Grammar
import MenuPages.Proofs.Head.Custody
import MenuPages.Proofs.Number.Nearest
import MenuPages.Proofs.Number.Magnitude
import MenuPages.Proofs.Number.Rounded
import MenuPages.Proofs.Price.TwoDecimals
import MenuPages.Proofs.Json.Scalars
import MenuPages.Proofs.Json.Passing
import MenuPages.Proofs.Number.Distinct
import MenuPages.Proofs.Json.Fields
import MenuPages.Proofs.Menu.Decoding
import MenuPages.Proofs.Markup.Reading
import MenuPages.Proofs.Viewer.ReadBack
import MenuPages.Proofs.Head.OtherTags
import MenuPages.Proofs.Head.Changes
import MenuPages.Proofs.Price.Grouping
import MenuPages.Proofs.Text.Offsets
import MenuPages.Proofs.Head.Cuts
import MenuPages.Proofs.Head.Boundaries
import MenuPages.Proofs.Template.Diagnostics
import MenuPages.Proofs.Head.Quoting
import MenuPages.Proofs.Head.Marker
import MenuPages.Proofs.Viewer.Selector
import MenuPages.Proofs.Markup.Occurrences
import MenuPages.Proofs.Viewer.Counting
import MenuPages.Proofs.Json.Pairs
import MenuPages.Proofs.Menu.Overriding
import MenuPages.Proofs.Template.Cursors
import MenuPages.Proofs.Template.Nesting
