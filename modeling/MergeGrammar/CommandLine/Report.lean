import MergeGrammar.Analysis
import MergeGrammar.Decimal.FixedPlaces

/-!
# Reports

The account of an analysis as text for a terminal, with or without color codes: what each step did,
the categories found, the complete derivations and the totals. The time that a step took and the
total time are filled in by the caller.
-/

namespace MergeGrammar.CommandLine

/-- A code that switches a color or a weight on. -/
inductive Paint where
  | bold
  | dim
  | green
  | yellow
  | blue
  | cyan
  | gray
deriving DecidableEq, Repr

namespace Paint

def code : Paint → String
  | bold => "1"
  | dim => "2"
  | green => "32"
  | yellow => "33"
  | blue => "34"
  | cyan => "36"
  | gray => "90"

/-- A text between the code and the one that switches it off, if colors are wanted. -/
def apply (color : Bool) (paint : Paint) (text : String) : String :=
  if color then "\x1b[" ++ paint.code ++ "m" ++ text ++ "\x1b[0m" else text

end Paint

def shownSamples : Nat := 5

def costPlaces : Nat := 1

/-- Lines, each with its end. -/
def unlines (lines : List String) : String := String.join (lines.map (· ++ "\n"))

def stepLines (color : Bool) (time : String) (step : StepSummary) : List String :=
  let label := Paint.blue.apply color (step.word ++ "-" ++ toString step.signal ++ ":")
  let routes := toString step.routesAdded ++ " routes"
  let found :=
    if 0 < step.routesAdded then Paint.green.apply color ("✓ " ++ routes)
    else Paint.dim.apply color ("✗ " ++ routes)
  let passes := Paint.dim.apply color (time ++ ", " ++ toString step.passes ++ " passes")
  let edge (kind arrow : String) (pair : Signal × Signal) : String :=
    "    " ++ Paint.dim.apply color kind ++ " " ++
      Paint.yellow.apply color (toString pair.1 ++ arrow ++ toString pair.2)
  let more :=
    if shownSamples < step.routesAdded then
      ["    " ++ Paint.dim.apply color
        ("... +" ++ toString (step.routesAdded - shownSamples) ++ " more")]
    else []
  ("  " ++ label ++ " " ++ found ++ "  " ++ passes) ::
    (step.merges.map (edge "merge" " ← ") ++ step.adjunctions.map (edge "adjoin" " + ") ++
      (step.samples.take shownSamples).map (fun sample => "    " ++ Paint.dim.apply color sample) ++
      more)

def titleLines (color : Bool) (title : String) : List String :=
  ["", Paint.gray.apply color ("━━━ " ++ title ++ " ━━━")]

def categoryLines (color : Bool) (categories : List (String × SignalSet)) : List String :=
  if categories.isEmpty then []
  else
    titleLines color "Categories" ++ categories.map fun (name, signals) =>
      "  " ++ Paint.blue.apply color name ++ " " ++
        Paint.dim.apply color (" ".intercalate (signals.toList.map toString))

def failureLines (color : Bool) : List String :=
  [Paint.dim.apply color "  No complete parse", "",
    Paint.yellow.apply color "Possible reasons:",
    "  • No selecting feature matched a word's category",
    "  • A mover could not reach its head under the neighbor policy",
    "  • Routes were dropped by a cap (see below)", "",
    Paint.dim.apply color
      "  Tip: Set MINIMERGE_LOG=minimerge=trace to see every combination attempt"]

def parseLines (color : Bool) (parse : Parse) (number : Nat) : List String :=
  ["  " ++ Paint.gray.apply color ("[" ++ toString number ++ "]") ++ " " ++
      Paint.bold.apply color (Paint.green.apply color parse.tree) ++ " " ++
      Paint.dim.apply color "│" ++ " " ++
      Paint.yellow.apply color ("cost " ++ Decimal.fixedPlaces costPlaces parse.cost),
    "      " ++ Paint.dim.apply color "route:" ++ " " ++
      Paint.blue.apply color parse.arrows ++ "  " ++
      Paint.dim.apply color "│ size/weight:" ++ " " ++
      Paint.cyan.apply color (toString parse.size ++ "/" ++ toString parse.weight)]

def cappedLines (color : Bool) (capped : Nat) : List String :=
  if capped = 0 then []
  else
    ["", "  " ++ Paint.yellow.apply color "⚠" ++ " " ++
      Paint.yellow.apply color
        (toString capped ++ " routes dropped by caps; results may be incomplete")]

def report (color : Bool) (stepTime : Signal → String) (totalTime : String)
    (analysis : Analysis) : String :=
  unlines <|
    ["", Paint.bold.apply color
        (Paint.cyan.apply color ("⚙  Parsing: \"" ++ analysis.sentence ++ "\"")),
      "  " ++ Paint.dim.apply color "word parts:" ++ " " ++
        Paint.blue.apply color (" ".intercalate analysis.wordParts) ++ "  " ++
        Paint.dim.apply color "│ policy:" ++ " " ++
        Paint.cyan.apply color analysis.policy.name] ++
    titleLines color "Steps" ++
    analysis.steps.flatMap (fun step => stepLines color (stepTime step.signal) step) ++
    categoryLines color analysis.categories ++
    titleLines color "Results" ++
    (if analysis.parses.isEmpty then failureLines color
      else analysis.parses.zipIdx.flatMap fun (parse, number) => parseLines color parse number) ++
    cappedLines color analysis.capped ++
    titleLines color "Timing" ++
    ["  Total: " ++ Paint.green.apply color totalTime ++ "  │  Routes: " ++
        Paint.cyan.apply color (toString analysis.routes) ++ "  │  Complete: " ++
        Paint.dim.apply color (toString analysis.complete), ""]

end MergeGrammar.CommandLine
