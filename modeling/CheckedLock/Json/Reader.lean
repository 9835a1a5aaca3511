import CheckedLock.Json.Token
/-! Reading JSON text: a run over its lexemes with a stack of open arrays and objects. -/
namespace CheckedLock
namespace Json
namespace Reader

/-- An open array or object that waits for a value; what it holds so far is kept backwards. -/
inductive Frame
  | array (items : List Json)
  | object (members : List (String × Json)) (key : String)

inductive State
  /-- a value has to follow -/
  | value (frames : List Frame)
  /-- a value or the end of an array just opened -/
  | first (frames : List Frame)
  /-- a key or the end of an object just opened -/
  | firstKey (frames : List Frame)
  | key (members : List (String × Json)) (frames : List Frame)
  | colon (members : List (String × Json)) (key : String) (frames : List Frame)
  /-- after an item or a member: a comma or the end -/
  | afterItem (items : List Json) (frames : List Frame)
  | afterMember (members : List (String × Json)) (frames : List Frame)
  | complete (v : Json)

/-- A value ends here. A member takes the place of an older one with its key. -/
def close (v : Json) : List Frame → State
  | [] => .complete v
  | .array items :: frames => .afterItem (v :: items) frames
  | .object members key :: frames =>
    .afterMember ((key, v) :: members.filter (·.1 ≠ key)) frames

/-- Where and why the reader stops is not said. -/
def unexpected {α : Type} : Except Failure α := .error (.malformed "")

def overflow (x : Literal) : Failure :=
  .refused ("[json.exception.out_of_range.406] number overflow parsing '" ++ x.text ++ "'")

variable (tooLarge : Literal → Bool)

/-- A value begins with this lexeme. -/
def openWith (frames : List Frame) : Token → Except Failure State
  | .openArray => .ok (.first frames)
  | .openObject => .ok (.firstKey frames)
  | .atom v => .ok (close v frames)
  | .number x => if tooLarge x then .error (overflow x) else .ok (close (.number x.numeral) frames)
  | .text s => .ok (close (.string s) frames)
  | _ => unexpected

def step : State → Token → Except Failure State
  | .value frames, t => openWith tooLarge frames t
  | .first frames, .closeArray => .ok (close (.array []) frames)
  | .first frames, t => openWith tooLarge (.array [] :: frames) t
  | .firstKey frames, .closeObject => .ok (close (.object []) frames)
  | .firstKey frames, .text key => .ok (.colon [] key frames)
  | .key members frames, .text key => .ok (.colon members key frames)
  | .colon members key frames, .colon => .ok (.value (.object members key :: frames))
  | .afterItem items frames, .comma => .ok (.value (.array items :: frames))
  | .afterItem items frames, .closeArray => .ok (close (.array items.reverse) frames)
  | .afterMember members frames, .comma => .ok (.key members frames)
  | .afterMember members frames, .closeObject => .ok (close (.object members.reverse) frames)
  | _, _ => unexpected

end Reader

/-- A reader that refuses some numbers. Of several things wrong with a text the first one counts. -/
def reader (tooLarge : Literal → Bool) : Parser := fun s => do
  match ← (Token.ofText s).foldlM (Reader.step tooLarge) (.value []) with
  | .complete v => .ok v
  | _ => Reader.unexpected

/-- The document that a text writes, if floating point has room for its numbers. -/
def read : Parser := reader Literal.overflows

end Json
end CheckedLock
