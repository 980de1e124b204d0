import PdfContent.CommandLine.Commands
import PdfContent.External.Libraries

/-!
The program: reads its arguments and the file they name, and writes what the command gives.
-/

open PdfContent

def usage : List String :=
  ["Inspect the operators and transparency of PDF content streams.",
   "",
   "Usage: pdfcontent [--log-level LEVEL] COMMAND [OPTIONS] FILE",
   "",
   "Commands:",
   "  ops           List every operator with its color spaces, font and glyphs",
   "  transparency  Report whether each page paints with transparency",
   "  help          Print this message",
   "",
   "Options of a command:",
   "  --pages RANGE        Page range (e.g. \"1,3-5\")",
   "  --format FORMAT      Output format: text (the default) or json",
   "  --flavour FLAVOUR    Target PDF/A flavour (e.g. \"2b\", \"PDF/A-1a\")",
   "  --max-depth DEPTH    Maximum nesting of form XObjects followed (10 unless given)",
   "  --no-warnings        Do not collect warnings"]

def versionLine : String := "pdfcontent 0.1.0"

def openDocument (file : String) : IO (Except CommandLine.OpenFault Document) := do
  try
    let data ← IO.FS.readBinFile file
    match External.File.read? data.toList with
    | some doc => return .ok (External.supplied doc)
    | none => return .error .notPdf
  catch
    | .noFileOrDirectory .. => return .error (.notFound file)
    | e => return .error (.unreadable file (toString e))

def writeStop (stop : CommandLine.Stop) : IO UInt32 := do
  if stop.isError then
    IO.eprintln ("error: " ++ stop.message)
    usage.forM IO.eprintln
    return 1
  if stop = .version then IO.println versionLine else usage.forM IO.println
  return 0

def main (arguments : List String) : IO UInt32 := do
  match CommandLine.parse arguments with
  | .error stop => writeStop stop
  | .ok request =>
    let output := request.run (← openDocument request.file)
    output.lines.forM IO.println
    output.errorLines.forM IO.eprintln
    return if output.crashed then 101 else if output.succeeds then 0 else 1
