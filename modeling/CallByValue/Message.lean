import CallByValue.Text.Run
import CallByValue.Text.Style
/-!
# Messages

A message is text with snippets in it: expressions, names and the like that it talks about. Reports
show the snippets in bold. A message that was made from a template is kept as the two texts it came
out as, plain and with bold snippets, unless these are too long to be written.
-/

namespace CallByValue

inductive Piece where
  | text (s : String)
  | snippet (s : String)
deriving DecidableEq

/-- The pieces one after another, with `snippet` applied to the snippets. -/
def Piece.render (snippet : String → String) (pieces : List Piece) : String :=
  String.join (pieces.map fun
    | .text s => s
    | .snippet s => snippet s)

inductive Message where
  | ofPieces (pieces : List Piece)
  | filled (plain styled : String)
  | unwritable
deriving DecidableEq

namespace Message

def ofRuns (plain styled : List Text.Run) : Message :=
  if plain.all Text.Run.isWritten && styled.all Text.Run.isWritten then
    .filled (String.ofList (Text.Run.expand plain)) (String.ofList (Text.Run.expand styled))
  else .unwritable

def isWritten : Message → Bool
  | .unwritable => false
  | _ => true

def plain : Message → String
  | .ofPieces pieces => Piece.render id pieces
  | .filled plain _ => plain
  | .unwritable => ""

def styled (style : Text.Style) : Message → String
  | .ofPieces pieces => Piece.render style.bold pieces
  | .filled _ styled => styled
  | .unwritable => ""

end Message

end CallByValue
