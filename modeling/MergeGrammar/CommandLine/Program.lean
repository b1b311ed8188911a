import MergeGrammar.CommandLine.Arguments
import MergeGrammar.CommandLine.Report
import MergeGrammar.Viewer.Exporter

/-!
# The program

What the program does with its arguments, given the contents of the files it asks for. It ends with
2 if the arguments, the input or the lexicon are wrong, with 1 if a sentence could not be analysed
and with 0 otherwise.
-/

namespace MergeGrammar.CommandLine

def version : String := "0.1.0"

def versionText : String := "minimerge " ++ version ++ "\n"

def helpText : String :=
  "minimerge " ++ version ++ "

Incremental feature-driven merge parser.

Usage:
  minimerge [OPTIONS] [--] <sentence...>
  minimerge [OPTIONS] --sentences <file>

Options:
  -l, --lexicon <file>       Lexicon to parse with (`word :: features, ...`).
                             Default: the built-in toy lexicon.
  -s, --sentences <file>     Parse every sentence in <file>, one per line.
                             Without a sentence or file, reads stdin.
  --policy <name>            Neighbor policy: mover-aware (default), strict,
                             movement-licensed.
  --profile-cap <n>          Routes kept per scope profile. Default: " ++
  toString Options.standard.profileCap ++ "
  --max-routes <n>           Routes kept per sentence. Default: " ++
  toString Options.standard.maxRoutes ++ "
  --no-agreement             Do not check agreement between stacked adjuncts.
  --signal-tree              Label trees with signal numbers.
  --export                   Send winning trees to the viewer on 127.0.0.1:62236.
  -v, -vv                    Log the search to stderr (debug / trace).
                             MINIMERGE_LOG overrides, e.g. MINIMERGE_LOG=minimerge=trace.
  --color                    Force ANSI color output.
  --no-color                 Disable ANSI color output.
  -h, --help                 Show this help message.
  -V, --version              Print version information.

Exit codes:
  0  Success.
  1  A sentence could not be parsed (unknown word, empty sentence).
  2  Invalid arguments, missing input or a malformed lexicon.
"

structure Surroundings where
  /-- The text of a file, or the reason why it cannot be read. -/
  file : String → Except String String
  input : Except String String
  /-- The setting of the log, if there is one. -/
  logSetting : Option String
  outputIsTerminal : Bool

inductive Source where
  | arguments (sentence : String)
  | file (path : String)
  | input
deriving DecidableEq, Repr

def Request.source (request : Request) : Except String Source :=
  match request.sentence, request.sentencesFile with
  | some _, some _ => .error "error: give either a sentence or --sentences, not both"
  | some sentence, none => .ok (.arguments sentence)
  | none, some path => .ok (.file path)
  | none, none => .ok .input

def unreadable (what cause : String) : String := "error: failed to read " ++ what ++ ": " ++ cause

def Source.sentences (source : Source) (surroundings : Surroundings) :
    Except String (List String) :=
  match source with
  | .arguments sentence => .ok [sentence]
  | .file path => ((surroundings.file path).mapError (unreadable path)).map Text.sentences
  | .input => (surroundings.input.mapError (unreadable "stdin")).map Text.sentences

/-- The sentences of a request, of which there must be one. -/
def Request.sentences (request : Request) (surroundings : Surroundings) :
    Except String (List String) :=
  match request.source with
  | .error cause => .error cause
  | .ok source =>
    match source.sentences surroundings with
    | .error cause => .error cause
    | .ok [] => .error ("error: no input provided\n\n" ++ helpText)
    | .ok sentences => .ok sentences

def Request.loadLexicon (request : Request) (surroundings : Surroundings) :
    Except String Lexicon :=
  match request.lexicon with
  | none => Lexicon.builtin.mapError fun cause => "error: built-in lexicon: " ++ cause.message
  | some path =>
    match surroundings.file path with
    | .error cause => .error (unreadable path cause)
    | .ok text => (Lexicon.parse text).mapError fun cause =>
        "error: " ++ path ++ ": " ++ cause.message

def Request.threshold (request : Request) : LogThreshold :=
  match request.verbosity with
  | 0 => .upTo .warn
  | 1 => .upTo .debug
  | _ => .upTo .trace

structure Job where
  sentences : List String
  lexicon : Lexicon
  options : Options
  exporting : Bool
  color : Bool
  threshold : LogThreshold

/-- Reads what a request asks for. The sentences come before the lexicon. -/
def Request.prepare (request : Request) (surroundings : Surroundings) : Except String Job :=
  match request.sentences surroundings with
  | .error cause => .error cause
  | .ok sentences =>
    (request.loadLexicon surroundings).map fun lexicon =>
      { sentences
        lexicon
        options := request.options
        exporting := request.exporting
        color := request.color.getD surroundings.outputIsTerminal
        threshold := (surroundings.logSetting.bind LogThreshold.ofSetting?).getD request.threshold }

structure Output where
  out : String
  err : String
  failed : Bool
deriving DecidableEq, Repr

namespace Output

def empty : Output := ⟨"", "", false⟩

def append (a b : Output) : Output := ⟨a.out ++ b.out, a.err ++ b.err, a.failed || b.failed⟩

end Output

/-- The time of each step and the total time as texts. -/
structure Times where
  step : Signal → String
  total : String

namespace Job

def logText (job : Job) (lines : List LogLine) : String :=
  String.join ((lines.filter (job.threshold.shows ·.level)).map LogLine.render)

/-- The outcome of the analysis of one sentence as output. Its trees are sent to the viewer if they
are to be exported. -/
def answer (job : Job) (times : Times) (connection : Viewer.Connection)
    (exporter : Viewer.Exporter) (sentence : String)
    (outcome : Except SessionError (Analysis × Session × List StepResult)) :
    Viewer.Exporter × Output :=
  match outcome with
  | .error cause =>
    (exporter, ⟨"", "error: " ++ sentence ++ ": " ++ cause.message ++ "\n", true⟩)
  | .ok (analysis, session, steps) =>
    let lines := session.logLines steps
    let text := report job.color times.step times.total analysis
    if job.exporting then
      let (exporter, delivery) := exporter.send connection (analysis.parses.map Parse.tree)
      (exporter, ⟨text, job.logText (lines ++ delivery.line?.toList), false⟩)
    else (exporter, ⟨text, job.logText lines, false⟩)

def trace (job : Job) (sentence : String) :
    Except SessionError (Analysis × Session × List StepResult) :=
  Analysis.trace job.lexicon job.options job.threshold.wantsAll sentence

def answerAll (job : Job) (times : Times) (connection : Viewer.Connection)
    (exporter : Viewer.Exporter) : List String → Output
  | [] => .empty
  | sentence :: sentences =>
    let (exporter, output) := job.answer times connection exporter sentence (job.trace sentence)
    output.append (job.answerAll times connection exporter sentences)

end Job

structure Outcome where
  exit : Nat
  out : String
  err : String
deriving DecidableEq, Repr

namespace Outcome

/-- The end of a program that was used wrongly. -/
def misuse (cause : String) : Outcome := ⟨2, "", cause ++ "\n"⟩

/-- The end of a program that worked on its sentences. -/
def ofOutput (output : Output) : Outcome := ⟨if output.failed then 1 else 0, output.out, output.err⟩

end Outcome

/-- The request that the arguments make, or the end of the program if they make none. -/
def requestOf (arguments : List String) : Except Outcome Request :=
  match read arguments with
  | .error cause => .error (.misuse cause)
  | .ok .showHelp => .error ⟨0, helpText ++ "\n", ""⟩
  | .ok .showVersion => .error ⟨0, versionText, ""⟩
  | .ok (.analyse request) => .ok request

def run (surroundings : Surroundings) (times : Times) (connection : Viewer.Connection)
    (arguments : List String) : Outcome :=
  match requestOf arguments with
  | .error outcome => outcome
  | .ok request =>
    match request.prepare surroundings with
    | .error cause => .misuse cause
    | .ok job => .ofOutput (job.answerAll times connection .start job.sentences)

end MergeGrammar.CommandLine
