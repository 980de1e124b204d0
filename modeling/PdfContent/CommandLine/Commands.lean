import PdfContent.CommandLine.Arguments
import PdfContent.Document.Analysis
import PdfContent.PageSelection
import PdfContent.Report

/-!
The commands: analyzing the selected pages of a document, all in one session, and reporting on
them. Analysis ends at the first page that cannot be read. The list of operators is written page by
page, so pages before that one are reported; the summary of transparency is written at the end.
-/

namespace PdfContent.CommandLine

structure Output where
  lines : List String := []
  errorLines : List String := []
  succeeds : Bool := true
  /-- Whether the program came down on the way, after what it had written. -/
  crashed : Bool := false
  deriving DecidableEq, Inhabited

inductive OpenFault
  | notFound (file : String)
  | unreadable (file cause : String)
  | notPdf
  | encrypted
  deriving DecidableEq, Inhabited

def OpenFault.message : OpenFault → String
  | notFound file => s!"file not found: {file}"
  | unreadable file cause => s!"failed to read {file}: {cause}"
  | notPdf => "failed to open PDF: couldn't parse input: invalid file header"
  | encrypted => "encrypted PDFs are not supported"

def failed (message : String) : Output :=
  { errorLines := ["Error: " ++ message], succeeds := false }

def isEncrypted (doc : Document) : Bool :=
  match (doc.trailer.entry? "Encrypt").bind PdfObject.reference? with
  | some id => (doc.node id).toOption.isSome
  | none => false

def checkOpen (doc : Document) : Except OpenFault Document :=
  if isEncrypted doc then .error .encrypted else .ok doc

structure NumberedPage where
  number : Nat
  id : ObjectId
  deriving DecidableEq, Inhabited

def numberedPages (doc : Document) : List NumberedPage :=
  (doc.pages.zipIdx 1).map fun page => ⟨page.2, page.1⟩

def selectedPages (doc : Document) (selection : Option String) :
    Except PageSelectionFault (List NumberedPage) :=
  let pages := numberedPages doc
  match selection with
  | none => .ok pages
  | some text =>
    (PageSelection.parse text pages.length).map fun indices =>
      indices.filterMap fun i => pages[i]?

structure PageReport where
  number : Nat
  model : Model
  warnings : List Warning

/-- Reports on pages in order, up to the first that cannot be read. -/
structure Survey where
  reports : List PageReport := []
  failure : Option (Nat × Failure) := none

def reportedWarnings (options : Options) (model : Model) : List Warning :=
  if options.collectsWarnings then model.allWarnings else []

def survey (doc : Document) : List NumberedPage → Session → Survey
  | [], _ => {}
  | page :: rest, s =>
    match doc.analyzePage page.id s with
    | (.error failure, _) => { failure := some (page.number, failure) }
    | (.ok model, s) =>
      let report : PageReport := ⟨page.number, model, reportedWarnings s.options model⟩
      let others := survey doc rest s
      { others with reports := report :: others.reports }

def Survey.crashed (s : Survey) : Bool := (s.failure.bind fun failure => failure.2.crash?).isSome

def failureLines (s : Survey) : List String :=
  if s.crashed then []
  else
    s.failure.toList.map fun failure =>
      let cause := failure.2.message
      s!"Error reading page {failure.1}: {cause}"

def operatorRows (report : PageReport) : List String :=
  report.model.nodes.zipIdx.map fun node => node.1.row report.number node.2

def warningLine (number : Nat) (warning : Warning) : String :=
  let text := warning.message
  s!"page {number}: {text}"

def operatorsJson (report : PageReport) : Json :=
  .object [
    ("page", .ofNat report.number),
    ("operators", .ofList (fun node => node.1.json node.2) report.model.nodes.zipIdx),
    ("contains_transparency", .boolean report.model.containsTransparency),
    ("stack_depth", .ofNat report.model.stackDepth),
    ("warnings", .ofList Warning.json report.warnings)]

def operatorsOutput (format : OutputFormat) (s : Survey) : Output :=
  match format with
  | .text =>
    { lines := columnTitles :: s.reports.flatMap operatorRows
      errorLines :=
        (s.reports.flatMap fun report => report.warnings.map (warningLine report.number)) ++
          failureLines s
      succeeds := s.failure.isNone
      crashed := s.crashed }
  | .json =>
    { lines := s.reports.map fun report => (operatorsJson report).render
      errorLines := failureLines s
      succeeds := s.failure.isNone
      crashed := s.crashed }

def transparencyRow (report : PageReport) : String :=
  let verdict := if report.model.containsTransparency then "yes" else "no"
  "\t".intercalate [toString report.number, verdict, toString report.model.nodes.length,
    toString report.warnings.length]

def transparencyTitles : String :=
  "\t".intercalate ["page", "transparency", "operators", "warnings"]

def flavourLine (flavour : Flavour) : String :=
  let text := flavour.text
  s!"# flavour: {text}"

def transparencyLines (flavour : Option Flavour) (reports : List PageReport) : List String :=
  flavour.toList.map flavourLine ++ [transparencyTitles] ++ reports.map transparencyRow ++
    reports.flatMap fun report =>
      report.warnings.map fun warning => "# " ++ warningLine report.number warning

def pageJson (report : PageReport) : Json :=
  .object [
    ("page", .ofNat report.number),
    ("contains_transparency", .boolean report.model.containsTransparency),
    ("operators", .ofNat report.model.nodes.length),
    ("warnings", .ofList Warning.json report.warnings)]

def transparencyJson (request : Request) (reports : List PageReport) : Json :=
  .object [
    ("file", .string request.file),
    ("flavour", .ofOption (fun flavour => .string flavour.text) request.options.flavour),
    ("contains_transparency",
      .boolean (reports.any fun report => report.model.containsTransparency)),
    ("pages", .ofList pageJson reports)]

def transparencyOutput (request : Request) (s : Survey) : Output :=
  match s.failure with
  | some _ => { errorLines := failureLines s, succeeds := false, crashed := s.crashed }
  | none =>
    match request.format with
    | .text => { lines := transparencyLines request.options.flavour s.reports }
    | .json => { lines := [(transparencyJson request s.reports).render] }

def Request.runOn (request : Request) (doc : Document) : Output :=
  match selectedPages doc request.pages with
  | .error fault => failed fault.message
  | .ok pages =>
    let s := survey doc pages { options := request.options }
    match request.command with
    | .ops => operatorsOutput request.format s
    | .transparency => transparencyOutput request s

def Request.run (request : Request) (source : Except OpenFault Document) : Output :=
  match source.bind checkOpen with
  | .error fault => failed fault.message
  | .ok doc => request.runOn doc

end PdfContent.CommandLine
