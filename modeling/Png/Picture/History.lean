import Png.Picture

namespace Png

inductive Operation where
  | probe (data : List UInt8)
  | load (dec : Decoder) (data : List UInt8)

namespace Operation

/-- What the operation answers, with the layout if it looks only for that, and the picture it
leaves behind. -/
def perform (p : Picture) : Operation → Except DecodeError (Option Layout) × Picture
  | probe data => ((p.probe data).1.map some, (p.probe data).2)
  | load dec data => ((p.load dec data).1.map fun _ => none, (p.load dec data).2)

def within (memory : Memory) : Operation → Operation
  | probe data => probe data
  | load dec data => load { dec with memory } data

end Operation

def Picture.after (p : Picture) (history : List Operation) : Picture :=
  history.foldl (fun p op => (op.perform p).2) p

end Png
