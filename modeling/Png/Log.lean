import Png.Decoder

namespace Png.Log

def entry (message : String) : String := "DEBUG " ++ message

def outcome {α : Type} (summary : α → List String) : Except Failure α → List String
  | .ok a => summary a
  | .error failure => failure.detail.toList

def head (result : Except Failure Layout) : List String :=
  outcome (fun l => [l.summary]) result

def stream (result : Except Failure Datastream) : List String :=
  outcome (fun s => [s.summary]) result

def answer : Except InflateError Inflated → List String
  | .ok inflated => inflated.detail.toList
  | .error _ => []

def recorded {α : Type} : Except Failure α → List String
  | .ok _ => []
  | .error failure => [failure.error.message]

def run (r : Run) : List String :=
  (r.layout.map (·.summary)).toList ++ (r.stream.map (·.summary)).toList ++
    r.call.elim [] (fun c => answer c.answer) ++ outcome (fun _ => []) r.result ++
    recorded r.result

end Png.Log
