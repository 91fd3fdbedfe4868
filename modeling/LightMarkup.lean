import LightMarkup.Text.Blank
import LightMarkup.Text.Lines
import LightMarkup.Text.Word
import LightMarkup.Text.Digit
import LightMarkup.Text.Lowercase
import LightMarkup.Text.Quoted
import LightMarkup.Text.Base64
import LightMarkup.Text.Digest
import LightMarkup.Pattern.Search
import LightMarkup.Draft
import LightMarkup.Html
import LightMarkup.Anchor
import LightMarkup.Rewrite
import LightMarkup.Construct.Heading
import LightMarkup.ImageSource
import LightMarkup.Paragraph.Quote
import LightMarkup.Paragraph.Compile
import LightMarkup.Loading
import LightMarkup.Contents
import LightMarkup.Main
import LightMarkup.Proofs.Logged
import LightMarkup.Proofs.Pattern.Following
import LightMarkup.Proofs.Pattern.Preferring
import LightMarkup.Proofs.Html.Scanning
import LightMarkup.Proofs.Draft.Windows
import LightMarkup.Proofs.Draft.Splicing
import LightMarkup.Proofs.Draft.Selection
import LightMarkup.Proofs.Construct.Emitting
import LightMarkup.Proofs.Construct.Visibility
import LightMarkup.Proofs.Construct.Protection
import LightMarkup.Proofs.Construct.Enclosure
import LightMarkup.Proofs.Loading.Coverage
import LightMarkup.Proofs.Loading.Pieces
import LightMarkup.Proofs.Loading.Headings
import LightMarkup.Proofs.Loading.Partition
import LightMarkup.Proofs.Loading.Endings
import LightMarkup.Proofs.Loading.Origin
import LightMarkup.Proofs.Paragraph.Replacement
import LightMarkup.Proofs.Construct.Nesting
import LightMarkup.Proofs.Pattern.Needing
import LightMarkup.Proofs.Loading.Claiming
import LightMarkup.Proofs.Loading.Leaves
import LightMarkup.Proofs.Loading.Roundtrip
import LightMarkup.Proofs.Construct.Rematching
import LightMarkup.Proofs.Loading.Rematching
import LightMarkup.Proofs.Loading.Lockstep
import LightMarkup.Proofs.Document.Lockstep
import LightMarkup.Proofs.Complaints
import LightMarkup.Proofs.Document.Rematching
import LightMarkup.Proofs.Document.Strictness
import LightMarkup.Proofs.Loading.Outline
import LightMarkup.Proofs.Draft.Joining
import LightMarkup.Proofs.Construct.Recutting
import LightMarkup.Proofs.Construct.Separating
import LightMarkup.Proofs.Paragraph.Independence
import LightMarkup.Proofs.Draft.Fragments
import LightMarkup.Proofs.Construct.Fragmentation
import LightMarkup.Proofs.Construct.Beginning
import LightMarkup.Proofs.Construct.Escaping
import LightMarkup.Proofs.Loading.Bodies
import LightMarkup.Proofs.Loading.Depth
import LightMarkup.Proofs.Loading.Room
import LightMarkup.Proofs.Paragraph.Quoting
import LightMarkup.Proofs.Loading.Quoting
import LightMarkup.Proofs.Dossier.Modes
import LightMarkup.Proofs.Document.Numbering
import LightMarkup.Proofs.Document.Reporting
import LightMarkup.Proofs.Construct.Citing
import LightMarkup.Proofs.Paragraph.Lines
import LightMarkup.Proofs.Loading.Lines
import LightMarkup.Proofs.Loading.Borders
import LightMarkup.Proofs.Returns.Loading
import LightMarkup.Proofs.Document.Linking
import LightMarkup.Proofs.Construct.Referencing
import LightMarkup.Proofs.Document.Excluding
import LightMarkup.Proofs.Loading.Skipping
import LightMarkup.Proofs.Draft.Slicing
import LightMarkup.Proofs.Construct.Completing
import LightMarkup.Proofs.Dossier.Checking
import LightMarkup.Proofs.Dossier.Printing
import LightMarkup.Proofs.Html.Tags
import LightMarkup.Proofs.Construct.Balancing
import LightMarkup.Proofs.Blanks.Aligned
import LightMarkup.Proofs.Blanks.Heeding
import LightMarkup.Proofs.Blanks.Carrying
import LightMarkup.Proofs.Blanks.Clearing
import LightMarkup.Proofs.Paragraph.Tables
import LightMarkup.Proofs.Loading.Rows
import LightMarkup.Proofs.Document.Folding
import LightMarkup.Proofs.Html.Entities
import LightMarkup.Proofs.Document.Sections
import LightMarkup.Proofs.Loading.Tags
import LightMarkup.Proofs.Loading.Below
import LightMarkup.Proofs.Loading.Chapters
import LightMarkup.Proofs.Document.Anchoring
import LightMarkup.Proofs.Loading.Locating
import LightMarkup.Proofs.Loading.Reordering
import LightMarkup.Proofs.Construct.Coding
import LightMarkup.Proofs.Paragraph.Literals
import LightMarkup.Proofs.Loading.Completeness
import LightMarkup.Proofs.GreekLetters
