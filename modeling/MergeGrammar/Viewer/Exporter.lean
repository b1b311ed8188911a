import MergeGrammar.Log.Line
import MergeGrammar.Viewer.Payload

/-!
# Sending trees to a viewer

Complete trees can be sent to a viewer that listens on a local port. The first connection that
fails turns the exporter off for good, and empty lists are never sent.
-/

namespace MergeGrammar.Viewer

inductive Connection where
  | listening
  /-- Nobody listens at the address. -/
  | refused
  | failed (cause : String)
deriving DecidableEq, Repr

/-- Whether trees are still sent. -/
structure Exporter where
  disabled : Bool
deriving DecidableEq, Repr

/-- What came of a list of trees. -/
inductive Delivery where
  /-- Nothing was attempted. -/
  | skipped
  | sent (trees : List String)
  /-- The connection failed. -/
  | undelivered (cause : Connection)
deriving DecidableEq, Repr

namespace Exporter

def start : Exporter := ⟨false⟩

def send (exporter : Exporter) (connection : Connection) (trees : List String) :
    Exporter × Delivery :=
  if exporter.disabled || trees.isEmpty then (exporter, .skipped)
  else
    match connection with
    | .listening => (exporter, .sent trees)
    | cause => (⟨true⟩, .undelivered cause)

end Exporter

namespace Delivery

def payload? : Delivery → Option String
  | sent trees => some (payload trees)
  | _ => none

def address : String := "127.0.0.1:62236"

def line? : Delivery → Option LogLine
  | skipped => none
  | sent trees =>
    some ⟨.info, fields "exported trees" [("addr", address), ("trees", toString trees.length)]⟩
  | undelivered (.failed cause) =>
    some ⟨.warn, fields "tree export failed; export disabled" [("addr", address), ("error", cause)]⟩
  | undelivered _ =>
    some ⟨.info, fields "no tree viewer listening; export disabled" [("addr", address)]⟩

end Delivery

end MergeGrammar.Viewer
