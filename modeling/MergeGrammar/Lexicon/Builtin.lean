import MergeGrammar.Lexicon.Reader

/-!
# The built-in lexicon

A small lexicon for trying things out, used wherever no other lexicon is given.
-/

namespace MergeGrammar.Lexicon

def builtinText : String :=
  "# Toy lexicon used by `minimerge::parse` and the CLI.
#
#   word :: part1 features, part2 features, ...
#
# `=X` selects an argument, `-X` licenses an adjunct, `moves` marks a word
# that may attach at a distance.

Pekka   :: N:nom3sg -adjL:a
Merja   :: N:nom3sg -adjL:a
Merjaa  :: N:prt|acc -adjL:a
ketä    :: N:prt moves
talo    :: N:nom3sg -adjL:a cat:NP

hyvä    :: adjL:a
iso     :: adjL:a

admires :: =N:nom3sg T:pst, =N:acc
näki    :: =N:nom3sg T:pst, =N:prt
ihailee :: =N:nom3sg T:prs, =N:prt
sleeps  :: =N:nom3sg T:pst
nukkuu  :: =N:nom3sg T:prs
"

def builtin : Except LexiconError Lexicon := parse builtinText

end MergeGrammar.Lexicon
