/-! Text as lines. -/
namespace CheckedLock
namespace Lines

/-- Lines without their newline; text after the last newline is the second part. -/
def split : List Char → List Char → List String × List Char
  | [], line => ([], line)
  | '\n' :: rest, line =>
    let (lines, last) := split rest []
    (String.ofList line.reverse :: lines, last)
  | c :: rest, line => split rest (c :: line)

/-- A last line without a newline is marked. -/
def ofText (text : String) : List String :=
  match split text.toList [] with
  | (lines, []) => lines
  | (lines, last) => lines ++ [String.ofList last.reverse ++ "<no newline>"]

end Lines
end CheckedLock
