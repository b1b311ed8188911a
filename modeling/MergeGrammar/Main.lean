import MergeGrammar.CommandLine.Elapsed
import MergeGrammar.CommandLine.Program

/-!
# The command line

Reads the files that the arguments ask for, works on one sentence after the other and measures the
time that each step takes.
-/

namespace MergeGrammar.CommandLine

/-- The text of a failure to read, with the number the system gives it. -/
def readFailure : IO.Error → String
  | .noFileOrDirectory _ _ _ => "No such file or directory (os error 2)"
  | .permissionDenied _ code details => details ++ " (os error " ++ toString code.toNat ++ ")"
  | .inappropriateType _ code details => details ++ " (os error " ++ toString code.toNat ++ ")"
  | .otherError code details => details ++ " (os error " ++ toString code.toNat ++ ")"
  | failure => toString failure

def decode (bytes : ByteArray) : Except String String :=
  match String.fromUTF8? bytes with
  | some text => .ok text
  | none => .error "stream did not contain valid UTF-8"

def readPath (path : String) : IO (Except String String) := do
  try
    return decode (← IO.FS.readBinFile path)
  catch failure => return .error (readFailure failure)

/-- All bytes of a stream behind those read already. -/
partial def readStream (stream : IO.FS.Stream) (before : ByteArray) : IO ByteArray := do
  let bytes ← stream.read 65536
  if bytes.isEmpty then return before else readStream stream (before ++ bytes)

/-- The program opens no connection, so nobody ever listens. -/
def viewer : Viewer.Connection := .refused

/-- Steps until the sentence has been read and measures each step. -/
def timedSteps (tracing : Bool) : Nat → Session → List (StepResult × Nat) →
    IO (Except SessionError (List (StepResult × Nat)) × Session)
  | 0, session, done => return (.ok done.reverse, session)
  | fuel + 1, session, done => do
    if session.isComplete then return (.ok done.reverse, session)
    let before ← IO.monoNanosNow
    let (result, session) ← IO.lazyPure fun _ => session.stepTracing tracing
    let after ← IO.monoNanosNow
    match result with
    | .error cause => return (.error cause, session)
    | .ok result => timedSteps tracing fuel session ((result, after - before) :: done)

/-- The analysis of a sentence and the time of each step. -/
def timedTrace (job : Job) (sentence : String) :
    IO (Except SessionError (Analysis × Session × List StepResult) × List Nat) := do
  match Session.ofSentence job.lexicon job.options sentence with
  | .error cause => return (.error cause, [])
  | .ok session =>
    match ← timedSteps job.threshold.wantsAll session.signalCount session [] with
    | (.error cause, _) => return (.error cause, [])
    | (.ok timed, session) =>
      let steps := timed.map Prod.fst
      return ((Analysis.ofSession sentence session steps).map fun analysis =>
        (analysis, session, steps), timed.map Prod.snd)

/-- The times of the steps of a sentence as texts. -/
def timesOf (nanoseconds : List Nat) : Times where
  step signal := elapsedText (nanoseconds.getD (signal - 1) 0)
  total := elapsedText (nanoseconds.foldl (· + ·) 0)

def work (job : Job) : Viewer.Exporter → Bool → List String → IO Bool
  | _, failed, [] => return failed
  | exporter, failed, sentence :: sentences => do
    let (outcome, nanoseconds) ← timedTrace job sentence
    let (exporter, output) := job.answer (timesOf nanoseconds) viewer exporter sentence outcome
    (← IO.getStderr).putStr output.err
    (← IO.getStdout).putStr output.out
    work job exporter (failed || output.failed) sentences

/-- Reads the files of a request, and the input if no other source of sentences is given. -/
def surroundingsOf (request : Request) : IO Surroundings := do
  let paths := request.sentencesFile.toList ++ request.lexicon.toList
  let texts ← paths.mapM fun path => return (path, ← readPath path)
  let input ←
    if request.sentence.isNone && request.sentencesFile.isNone then
      pure (decode (← readStream (← IO.getStdin) ByteArray.empty))
    else pure (.ok "")
  return {
    file := fun path =>
      (texts.lookup path).getD (.error (readFailure (.noFileOrDirectory path 2 "")))
    input
    logSetting := ← IO.getEnv "MINIMERGE_LOG"
    outputIsTerminal := ← (← IO.getStdout).isTty }

def finish (outcome : Outcome) : IO UInt32 := do
  (← IO.getStderr).putStr outcome.err
  (← IO.getStdout).putStr outcome.out
  return outcome.exit.toUInt32

end MergeGrammar.CommandLine

open MergeGrammar.CommandLine in
def main (arguments : List String) : IO UInt32 := do
  match requestOf arguments with
  | .error outcome => finish outcome
  | .ok request =>
    match request.prepare (← surroundingsOf request) with
    | .error cause => finish (.misuse cause)
    | .ok job =>
      let failed ← work job .start false job.sentences
      finish (.ofOutput ⟨"", "", failed⟩)
