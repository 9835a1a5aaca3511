import CheckedLock.Text.Column
/-! Log lines with everything removed that differs from run to run: stamps, addresses, thread and
process numbers, elapsed time. -/
namespace CheckedLock
namespace Redaction

/-- A shape that a text may begin with. -/
inductive Shape
  | exactly (c : Char)
  | digit
  | any
  /-- any number of blanks -/
  | blanks
  /-- one or more digits -/
  | digits
  | hexDigits

def isHexDigit (c : Char) : Bool :=
  c.isDigit || ('a' ≤ c && c ≤ 'f')

/-- What follows the shapes, if the text begins with them. -/
def after? : List Shape → List Char → Option (List Char)
  | [], cs => some cs
  | .exactly c :: shapes, d :: cs => if c = d then after? shapes cs else none
  | .digit :: shapes, d :: cs => if d.isDigit then after? shapes cs else none
  | .any :: shapes, _ :: cs => after? shapes cs
  | .blanks :: shapes, cs => after? shapes (cs.dropWhile (· = ' '))
  | .digits :: shapes, d :: cs =>
    if d.isDigit then after? shapes (cs.dropWhile Char.isDigit) else none
  | .hexDigits :: shapes, d :: cs =>
    if isHexDigit d then after? shapes (cs.dropWhile isHexDigit) else none
  | _ :: _, [] => none

def literally (s : String) : List Shape := s.toList.map .exactly

/-- `d` stands for a digit, `?` for any character. -/
def pattern (s : String) : List Shape :=
  s.toList.map fun c => if c = 'd' then .digit else if c = '?' then .any else .exactly c

/-- Local time, level and thread at the head of a log line, up to the level. -/
def stampHead : List Shape := pattern "[dddd-dd-dd dd:dd:dd.dddddd] ["

def levelShape : List Shape := pattern "??????"

def threadShape : List Shape :=
  literally "] [" ++ [.blanks, .digits] ++ literally "] "

/-- The level and the message, if a stamp stands at the head. -/
def stamped? (cs : List Char) : Option (List Char × List Char) :=
  match after? stampHead cs with
  | none => none
  | some rest => (after? (levelShape ++ threadShape) rest).map (rest.take 6, ·)

/-- Text before the first stamp, and what `stamped?` finds there. -/
def firstStamp? : List Char → Option (List Char × List Char × List Char)
  | [] => none
  | c :: cs => match stamped? (c :: cs) with
    | some (level, body) => some ([], level, body)
    | none => (firstStamp? cs).map fun (before, rest) => (c :: before, rest)

/-- Each place where `shapes` follows `head` is replaced by `head` and `mask`. -/
def mask (head : List Char) (shapes : List Shape) (label : List Char) : Nat → List Char → List Char
  | 0, cs => cs
  | _, [] => []
  | fuel + 1, c :: cs => match after? (head.map .exactly ++ shapes) (c :: cs) with
    | some rest => head ++ label ++ mask head shapes label fuel rest
    | none => c :: mask head shapes label fuel cs

def maskAll (head : String) (shapes : List Shape) (label : String) (cs : List Char) : List Char :=
  mask head.toList shapes label.toList cs.length cs

def begins (head : String) (cs : List Char) : Bool :=
  (after? (literally head) cs).isSome

/-- The message of a log line. -/
def body (cs : List Char) : List Char :=
  if begins "Stress done in " cs then "Stress done in MS ms (N WouldBlock retries)".toList
  else if begins "tclock-stress " cs then maskAll "(pid " [.digits] "PID" cs
  else
    let masked := maskAll "ThreadCheckedMutex " (literally "0x" ++ [.hexDigits]) "ADDR" cs
    if masked = cs then cs else maskAll "on thread " [.digits] "TID" masked

/-- Only the first stamp of a line is replaced, and what follows it. -/
def line (s : String) : String :=
  match firstStamp? s.toList with
  | none => s
  | some (before, level, message) =>
    String.ofList (before ++ "[TIME] [".toList ++ level ++ "] [TID] ".toList ++ body message)

end Redaction
end CheckedLock
