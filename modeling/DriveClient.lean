import DriveClient.App.History
import DriveClient.App.Page
import DriveClient.App.Run
import DriveClient.App.State
import DriveClient.Browser
import DriveClient.Decimal.Basic
import DriveClient.Decimal.Layout
import DriveClient.Decimal.Shortest
import DriveClient.Double.Arith
import DriveClient.Double.Basic
import DriveClient.Fetch
import DriveClient.Json.Fault
import DriveClient.Json.Literal
import DriveClient.Json.Shape
import DriveClient.Json.Text
import DriveClient.Json.Tree
import DriveClient.Log
import DriveClient.Path
import DriveClient.Percentage
import DriveClient.Quantity
import DriveClient.Route.Basic
import DriveClient.Route.Pattern
import DriveClient.Route.Table
import DriveClient.Text.Blank
import DriveClient.Text.Hex
import DriveClient.Text.Percent
import DriveClient.Text.Utf8
import DriveClient.Usage.Basic
import DriveClient.Usage.Direct
import DriveClient.Usage.Report
import DriveClient.View.Controls
import DriveClient.View.Header
import DriveClient.View.Icon
import DriveClient.View.Layout
import DriveClient.View.Node
import DriveClient.View.Pages
import DriveClient.View.Sidebar
import DriveClient.Proofs.Path.Segments
import DriveClient.Proofs.Path.Canonical
import DriveClient.Proofs.Route.Pattern
import DriveClient.Proofs.Route.Resolution
import DriveClient.Proofs.Route.Codec
import DriveClient.Proofs.App.Whereabouts
import DriveClient.Proofs.Text.PathCode
import DriveClient.Proofs.Browser.Location
import DriveClient.Proofs.App.Navigation
import DriveClient.Proofs.App.Reload
import DriveClient.Proofs.App.UsageLoad
import DriveClient.Proofs.Double.Rounding
import DriveClient.Proofs.Double.Operations
import DriveClient.Proofs.Double.Counts
import DriveClient.Proofs.Double.Number
import DriveClient.Proofs.Percentage.Normalization
import DriveClient.Proofs.Percentage.Bar
import DriveClient.Proofs.Usage.Ratio
import DriveClient.Proofs.Double.RelativeError
import DriveClient.Proofs.Usage.QuotaBar
import DriveClient.Proofs.Json.Grammar
import DriveClient.Proofs.Json.Scanning
import DriveClient.Proofs.Json.Completeness
import DriveClient.Proofs.Json.Soundness
import DriveClient.Proofs.Decimal.Value
import DriveClient.Proofs.Decimal.Digits
import DriveClient.Proofs.Decimal.Fewest
import DriveClient.Proofs.Double.Overflow
import DriveClient.Proofs.Double.Order
import DriveClient.Proofs.Double.Powers
import DriveClient.Proofs.View.Outlet
import DriveClient.Proofs.Json.Numerals
import DriveClient.Proofs.Json.Writing
import DriveClient.Proofs.Json.Members
import DriveClient.Proofs.Usage.Acceptance
import DriveClient.Proofs.Usage.RoundTrip
import DriveClient.Proofs.Json.Passing
import DriveClient.Proofs.Json.Pieces
import DriveClient.Proofs.Usage.Collecting
import DriveClient.Proofs.Usage.Agreement
import DriveClient.Proofs.Path.Links
import DriveClient.Proofs.Route.Matching
import DriveClient.Proofs.Route.Partition
import DriveClient.Proofs.View.Highlighting
import DriveClient.Proofs.Text.Url
import DriveClient.Proofs.App.AddressBar
import DriveClient.Proofs.App.Interleaving
import DriveClient.Proofs.App.History
import DriveClient.Proofs.Decimal.Plain
import DriveClient.Proofs.Quantity.Display
import DriveClient.Proofs.Usage.Summary
import DriveClient.Proofs.Usage.DisplayUnits
import DriveClient.Proofs.Usage.UnitChoice
import DriveClient.Proofs.Percentage.Accuracy
import DriveClient.Proofs.Quantity.Order
import DriveClient.Proofs.Text.Trimming
import DriveClient.Proofs.View.Header
import DriveClient.Proofs.App.Search
