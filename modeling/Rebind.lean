import Rebind.Diagnosis.Inspection
import Rebind.Diagnosis.Sample
import Rebind.Edit.BindCall
import Rebind.Edit.ClickListener
import Rebind.Edit.Editor
import Rebind.Edit.FieldLookup
import Rebind.Edit.Insertion
import Rebind.Fault
import Rebind.Findings.Basic
import Rebind.Findings.Codec
import Rebind.Findings.Detect
import Rebind.Findings.Summary
import Rebind.Injection.Annotations
import Rebind.Injection.Cleanup
import Rebind.Injection.Holder
import Rebind.Injection.Imports
import Rebind.Injection.Inheritance
import Rebind.Injection.Initialiser
import Rebind.Injection.Inject
import Rebind.Injection.OnCreate
import Rebind.Injection.Statements
import Rebind.Layout
import Rebind.Main
import Rebind.Migration.Round
import Rebind.Migration.Run
import Rebind.Migration.Unattended
import Rebind.Note
import Rebind.Number.Binary
import Rebind.Number.Decimal
import Rebind.Pattern.Basic
import Rebind.Pattern.Search
import Rebind.Project.Kind
import Rebind.Project.LayoutFile
import Rebind.Project.Log
import Rebind.Project.Moment
import Rebind.Project.Options
import Rebind.Project.Packaging
import Rebind.Project.Path
import Rebind.Project.Scan
import Rebind.Project.Session
import Rebind.Project.Settings
import Rebind.Project.Tree
import Rebind.Project.Workspace
import Rebind.Project.Writer
import Rebind.Proofs.Edit.Dropping
import Rebind.Proofs.Edit.Sparing
import Rebind.Proofs.Findings.Quiet
import Rebind.Proofs.Findings.Shape
import Rebind.Proofs.Injection.Additions
import Rebind.Proofs.Injection.Bindings
import Rebind.Proofs.Injection.Blocks
import Rebind.Proofs.Injection.Descent
import Rebind.Proofs.Injection.Extension
import Rebind.Proofs.Injection.Insertions
import Rebind.Proofs.Injection.Lineage
import Rebind.Proofs.Injection.Repetition
import Rebind.Proofs.Injection.Routes
import Rebind.Proofs.Injection.Standing
import Rebind.Proofs.Layout.FieldLines
import Rebind.Proofs.Layout.WhiteSpace
import Rebind.Proofs.Migration.Completeness
import Rebind.Proofs.Migration.Failures
import Rebind.Proofs.Migration.Methods
import Rebind.Proofs.Migration.Stages
import Rebind.Proofs.Migration.Totality
import Rebind.Proofs.Outcome
import Rebind.Proofs.Pattern.Locality
import Rebind.Proofs.Pattern.Reading
import Rebind.Proofs.Pattern.Rewriting
import Rebind.Proofs.Pattern.Tiling
import Rebind.Proofs.Project.Frame
import Rebind.Proofs.Project.Writing
import Rebind.Proofs.Source.Braces
import Rebind.Proofs.Source.Headers
import Rebind.Proofs.Source.Scanning
import Rebind.Proofs.Source.Standing
import Rebind.Proofs.Text.Lines
import Rebind.Source.Braces
import Rebind.Source.ClassBody
import Rebind.Source.Comments
import Rebind.Source.Method
import Rebind.Specimen.Source
import Rebind.Text.Basic
import Rebind.Text.Blank
import Rebind.Text.Capital
import Rebind.Text.Order
import Rebind.Text.Printable
import Rebind.Text.Quoted
import Rebind.Text.Ranges
import Rebind.Text.Word
import Rebind.Value.Basic
import Rebind.Value.Json
import Rebind.Value.Number
import Rebind.Proofs.Findings.Commented
import Rebind.Proofs.Findings.Declarations
import Rebind.Proofs.Project.Backups
import Rebind.Proofs.Migration.Accounting
import Rebind.Proofs.Project.Overwriting
import Rebind.Proofs.Project.Scanning
import Rebind.Proofs.Project.Exclusion
import Rebind.Proofs.Project.Statistics
import Rebind.Proofs.Edit.Registering
import Rebind.Proofs.Migration.Overriding
import Rebind.Proofs.Source.ClassEnd
import Rebind.Proofs.Injection.Placements
import Rebind.Proofs.Injection.NewMethods
import Rebind.Proofs.Injection.InnerHolders
import Rebind.Proofs.Source.Matching
import Rebind.Proofs.Injection.Constructors
import Rebind.Proofs.Injection.Marking
import Rebind.Proofs.Injection.Cleaning
import Rebind.Proofs.Injection.Leftovers
import Rebind.Proofs.Injection.Replacing
import Rebind.Proofs.Injection.Calls
import Rebind.Proofs.Edit.Sites
import Rebind.Proofs.Source.LineSpans
import Rebind.Proofs.Injection.Overrides
import Rebind.Proofs.Injection.Targets
import Rebind.Proofs.Source.Pairing
import Rebind.Proofs.Edit.Places
import Rebind.Proofs.Edit.Balance
import Rebind.Proofs.Edit.Recognition
import Rebind.Proofs.Edit.Unmarking
import Rebind.Proofs.Injection.Resources
import Rebind.Proofs.Edit.Removal
import Rebind.Proofs.Injection.ImportNames
import Rebind.Proofs.Injection.Registrations
import Rebind.Proofs.Injection.ListenerViews
import Rebind.Proofs.Findings.LongClicks
import Rebind.Proofs.Findings.ClassKinds
import Rebind.Proofs.Source.Extents
import Rebind.Proofs.Findings.ViewParameters
import Rebind.Proofs.Migration.OriginLines
import Rebind.Proofs.Layout.LinePasses
import Rebind.Proofs.Project.WriteCounts
import Rebind.Proofs.Source.MethodEnds
import Rebind.Proofs.Specimen.BigClass
import Rebind.Proofs.Project.SettingsFiles
import Rebind.Proofs.Specimen.Handlers
import Rebind.Proofs.Edit.BlankLines
