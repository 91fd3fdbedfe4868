import LightMarkup.Text.Quoted

/-!
Everything that can go wrong, one constructor per cause, and the text that reports it.
-/

namespace LightMarkup

/-- What is wrong with a dossier configuration. -/
inductive ConfigurationError where
  | notYaml (path : Text)
  | notMapping (path : Text)
  | documentsNotList
  | sectionNotMapping (name : String)
  | headingLevelOutOfRange
  | recordWithoutTitle (key : Text)
  | settingNotBoolean (key : Text)
  | unknownSetting (key : Text)
  | excludedNotList
  deriving DecidableEq, Repr

/-- What cannot be read or is not written as it should be. -/
inductive ResourceError where
  | noConfiguration (directory : Text)
  | unreadable (path : Text)
  | image (raw : Text)
  | multiImage (raw : Text)
  | focusBlock (raw : Text)
  deriving DecidableEq, Repr

inductive ImageSourceError where
  | notFound (path : Text)
  | unreachable (url : Text)
  deriving DecidableEq, Repr

/-- Mistakes in how an operation is called, and broken promises between operations. Users cannot mend these. -/
inductive Fault where
  | invalidBoundary (policy : Text)
  | invalidExclusionState (state : Text)
  | unknownSettings (keys : List Text)
  | noSuchGroup
  | noDigits
  | notNumber
  | outOfRange
  | tooLarge
  | unknownWord
  | notMoment
  | notMapping
  | endless
  | notText
  | notIterable
  | fileNotFound
  | isDirectory
  | notDirectory
  | notUtf8
  | notWritable
  | unusablePath
  | nameTooLong (path : Text)
  | emptyBlockMatch (construct : String)
  | unclosedMatch (construct : String)
  deriving DecidableEq, Repr

inductive Failure where
  | invalidConfiguration (cause : ConfigurationError)
  | invalidTag (tag : Text)
  | missingLoadingRule (construct : String)
  | recursionDepth (limit : Int)
  | resource (cause : ResourceError)
  | quoteLineWithoutMark (line : Text)
  | unresolvableBlock (text : Text)
  | sliceReversed (start stop : Int)
  | sliceOverflow (stop length : Nat)
  | unknownGreekLetters (unknown : List Text) (whole : Text)
  | imageSource (cause : ImageSourceError)
  | invalidListItem (line : Text)
  | missingDocumentName (identifier : Text)
  | unmatchedRule (construct : String) (content : Text)
  | unresolvedCitation (key : Text)
  | unresolvedReference (key : Text)
  | several (failures : List Failure)
  | fault (cause : Fault)
  deriving Repr

def inTicks (t : Text) : Text :=
  "`" ++ t ++ "`"

namespace ConfigurationError

def message : ConfigurationError → Text
  | .notYaml path => "invalid YAML in " ++ inTicks path
  | .notMapping path => inTicks path ++ " must contain a mapping"
  | .documentsNotList => "`documents` must be a list of file names"
  | .sectionNotMapping name => inTicks (Text.ofString name) ++ " must be a mapping"
  | .headingLevelOutOfRange => "`table_of_contents.maximum_heading_level` must be an integer in 1..6"
  | .recordWithoutTitle key => "bibliography record " ++ inTicks key ++ " must be a mapping with a `title`"
  | .settingNotBoolean key => "`compilation." ++ key ++ "` must be a boolean"
  | .unknownSetting key => "unknown compilation setting " ++ inTicks key
  | .excludedNotList => "`compilation.excluded_modifiers` must be `everything`, `nothing` or a list"

end ConfigurationError

namespace ResourceError

def message : ResourceError → Text
  | .noConfiguration directory => "no dossier configuration file (nmd.yml, nmd.yaml) in " ++ inTicks directory
  | .unreadable path => "cannot read " ++ inTicks path
  | .image raw => "invalid image " ++ inTicks raw
  | .multiImage raw => "invalid multi image " ++ inTicks raw
  | .focusBlock raw => "invalid focus block " ++ inTicks raw

end ResourceError

namespace ImageSourceError

def message : ImageSourceError → Text
  | .notFound path => "image " ++ inTicks path ++ " not found"
  | .unreachable url => "cannot fetch remote image " ++ inTicks url

end ImageSourceError

namespace Fault

/-- Whether it is a matter of which files there are. -/
def isAboutFiles : Fault → Bool
  | .fileNotFound | .isDirectory | .notDirectory | .nameTooLong _ => true
  | _ => false

def message : Fault → Text
  | .invalidBoundary policy => "error: invalid boundary policy " ++ inTicks policy
  | .invalidExclusionState state => "error: invalid incompatibility state " ++ inTicks state
  | .unknownSettings keys => "error: unknown configuration key(s): " ++ Text.join ", " keys
  | .noSuchGroup => "no such group"
  | .noDigits => "no digits"
  | .notNumber => "not a number"
  | .outOfRange => "no such number or date"
  | .tooLarge => "too large a number"
  | .unknownWord => "no such truth value"
  | .notMoment => "not a date"
  | .notMapping => "not a mapping"
  | .endless => "too deep"
  | .notText => "not a text"
  | .notIterable => "not iterable"
  | .fileNotFound => "file not found"
  | .isDirectory => "is a directory"
  | .notDirectory => "not a directory"
  | .notUtf8 => "not valid UTF-8"
  | .notWritable => "half of a character"
  | .unusablePath => "no such path"
  | .nameTooLong path => "[Errno 36] File name too long: " ++ Text.quoted path
  | .emptyBlockMatch construct => "empty block match for " ++ inTicks (Text.ofString construct)
  | .unclosedMatch construct => "unclosed match while applying " ++ inTicks (Text.ofString construct)

end Fault

def invalidListItemText (line : Text) : Text :=
  "invalid list item " ++ inTicks line

def quoteLineText (line : Text) : Text :=
  "block quote line without `>`: " ++ inTicks line

def missingLoadingRuleText (construct : String) : Text :=
  "no loading rule for block construct " ++ inTicks (Text.ofString construct)

def unknownGreekLettersText (unknown : List Text) (whole : Text) : Text :=
  "unknown Greek letter key(s) " ++ Text.quotedList unknown ++ " in " ++ inTicks whole

namespace Failure

mutual

def message : Failure → Text
  | .invalidConfiguration cause => cause.message
  | .invalidTag tag => "invalid chapter tag: " ++ inTicks tag
  | .missingLoadingRule construct => missingLoadingRuleText construct
  | .recursionDepth limit => "block nesting exceeds the maximum depth of " ++ Text.ofInt limit
  | .resource cause => cause.message
  | .quoteLineWithoutMark line => quoteLineText line
  | .unresolvableBlock text => "no construct can load " ++ inTicks text
  | .sliceReversed start stop => "slice start " ++ Text.ofInt start ++ " is past slice end " ++ Text.ofInt stop
  | .sliceOverflow stop length =>
    "slice end " ++ Text.ofNat stop ++ " overflows compilable content of length " ++ Text.ofNat length
  | .unknownGreekLetters unknown whole => unknownGreekLettersText unknown whole
  | .imageSource cause => cause.message
  | .invalidListItem line => invalidListItemText line
  | .missingDocumentName identifier =>
    "document name needed to build a reference to " ++ inTicks ('#' :: identifier)
  | .unmatchedRule construct content =>
    inTicks (Text.ofString construct) ++ " does not match compilable content " ++ inTicks content
  | .unresolvedCitation key => "bibliography record " ++ inTicks key ++ " not found"
  | .unresolvedReference key => "reference " ++ inTicks key ++ " not found"
  | .several failures => Text.join "; " (messages failures)
  | .fault cause => cause.message

def messages : List Failure → List Text
  | [] => []
  | failure :: rest => failure.message :: messages rest

end

end Failure

end LightMarkup
