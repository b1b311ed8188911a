/-!
# Errors

A lexicon can be malformed, and a sentence can fail to start or be driven out of order. Each cause
is a constructor of its own, and `message` says it in words. A sentence without a complete
derivation is no error: its ranking is empty.
-/

namespace MergeGrammar

/-- Why a lexicon is refused. -/
inductive LexiconError where
  /-- A line lacks the double colon between the word and its feature groups. -/
  | malformedLine (line : Nat)
  /-- The text before the double colon is not a single word. -/
  | emptyWord (line : Nat)
  /-- A word part has no features, or a word has no parts. -/
  | emptyGroup (word : String)
  /-- A token is neither a category nor a feature. -/
  | invalidFeature (word token : String)
  /-- A feature stands twice in one word part. -/
  | duplicateFeature (word feature : String)
  | duplicateWord (word : String)
deriving DecidableEq, Repr

def LexiconError.message : LexiconError → String
  | malformedLine line => "line " ++ toString line ++ ": expected `word :: feature groups`"
  | emptyWord line => "line " ++ toString line ++ ": missing word before `::`"
  | emptyGroup word => "entry `" ++ word ++ "` has an empty feature group"
  | invalidFeature word token => "entry `" ++ word ++ "`: invalid feature token `" ++ token ++ "`"
  | duplicateFeature word feature =>
    "entry `" ++ word ++ "`: feature `" ++ feature ++ "` appears twice in one word part"
  | duplicateWord word => "word `" ++ word ++ "` is defined more than once"

/-- Why a sentence cannot be started, stepped or ranked. -/
inductive SessionError where
  | emptySentence
  | unknownWord (word : String)
  | exhausted
  /-- Derivations are ranked only when every word part has been consumed. -/
  | incomplete (consumed total : Nat)
deriving DecidableEq, Repr

def SessionError.message : SessionError → String
  | emptySentence => "sentence has no tokens"
  | unknownWord word => "word `" ++ word ++ "` is not in the lexicon"
  | exhausted => "all word parts have already been consumed"
  | incomplete consumed total =>
    "sentence is not complete yet (" ++ toString consumed ++ "/" ++ toString total ++
      " word parts consumed)"

/-- Why a sentence could not be analysed at all. -/
inductive AnalysisError where
  | lexicon (cause : LexiconError)
  | session (cause : SessionError)
deriving DecidableEq, Repr

/-- The text of an analysis error, which marks the causes that lie in the lexicon. -/
def AnalysisError.message : AnalysisError → String
  | lexicon cause => "lexicon: " ++ cause.message
  | session cause => cause.message

end MergeGrammar
