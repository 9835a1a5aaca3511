/-! The last component of a path, where both kinds of slash separate components. -/
namespace CheckedLock
namespace FileName

/-- Position of the last occurrence of `c`, if there is one. -/
def lastIndex? (c : Char) : List Char → Option Nat
  | [] => none
  | d :: rest => match lastIndex? c rest with
    | some i => some (i + 1)
    | none => if d = c then some 0 else none

@[simp] theorem lastIndex?_nil (c : Char) : lastIndex? c [] = none := rfl

/-- The later of the last slash and the last backslash. -/
def lastSeparator? (path : List Char) : Option Nat :=
  match lastIndex? '/' path, lastIndex? '\\' path with
  | none, j => j
  | some i, none => some i
  | some i, some j => some (max i j)

def ofChars (path : List Char) : List Char :=
  match lastSeparator? path with
  | none => path
  | some i => path.drop (i + 1)

@[simp] theorem ofChars_nil : ofChars [] = [] := rfl

def ofPath (path : String) : String :=
  String.ofList (ofChars path.toList)

@[simp] theorem toList_ofPath (path : String) : (ofPath path).toList = ofChars path.toList :=
  String.toList_ofList

end FileName
end CheckedLock
