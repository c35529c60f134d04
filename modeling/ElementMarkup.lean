import ElementMarkup.Document.Cursor
import ElementMarkup.Main
import ElementMarkup.Proofs.Alphabet
import ElementMarkup.Proofs.Attribute
import ElementMarkup.Proofs.Attribute.Segments
import ElementMarkup.Proofs.Compile.Alphabet
import ElementMarkup.Proofs.Compile.Attribution
import ElementMarkup.Proofs.Compile.Cycle
import ElementMarkup.Proofs.Compile.Detection
import ElementMarkup.Proofs.Compile.Divergence
import ElementMarkup.Proofs.Compile.Extension
import ElementMarkup.Proofs.Compile.Graph
import ElementMarkup.Proofs.Compile.Health
import ElementMarkup.Proofs.Compile.Locality
import ElementMarkup.Proofs.Compile.Meaning
import ElementMarkup.Proofs.Compile.Nesting
import ElementMarkup.Proofs.Compile.Once
import ElementMarkup.Proofs.Compile.Run
import ElementMarkup.Proofs.Compile.SameStore
import ElementMarkup.Proofs.Compile.Store
import ElementMarkup.Proofs.Compile.Targets
import ElementMarkup.Proofs.Compile.Verbosity
import ElementMarkup.Proofs.Compile.Wide
import ElementMarkup.Proofs.Diagnostic
import ElementMarkup.Proofs.Diagnostic.Faults
import ElementMarkup.Proofs.Disk
import ElementMarkup.Proofs.Document.Concatenation
import ElementMarkup.Proofs.Document.Earliest
import ElementMarkup.Proofs.Document.Grammar
import ElementMarkup.Proofs.Document.Layout
import ElementMarkup.Proofs.Document.Listing
import ElementMarkup.Proofs.Document.OffEnd
import ElementMarkup.Proofs.Document.Parts
import ElementMarkup.Proofs.Document.Placement
import ElementMarkup.Proofs.Document.Printing
import ElementMarkup.Proofs.Encoding
import ElementMarkup.Proofs.Html
import ElementMarkup.Proofs.Html.Inlining
import ElementMarkup.Proofs.Html.Nesting
import ElementMarkup.Proofs.Job
import ElementMarkup.Proofs.Job.Agreement
import ElementMarkup.Proofs.Job.Writing
import ElementMarkup.Proofs.Path
import ElementMarkup.Proofs.Table
import ElementMarkup.Proofs.Token.Fault
import ElementMarkup.Proofs.Token.Split
import ElementMarkup.Token.Cursor
