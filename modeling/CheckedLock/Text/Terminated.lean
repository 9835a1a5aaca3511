/-! Text that a reader takes up to the first NUL: paths, words and variables of a process, and the
text of an error. -/
namespace CheckedLock
namespace Terminated

def ofChars (cs : List Char) : List Char := cs.takeWhile (· ≠ '\x00')

def ofText (s : String) : String := String.ofList (ofChars s.toList)

@[simp] theorem toList_ofText (s : String) : (ofText s).toList = ofChars s.toList :=
  String.toList_ofList

end Terminated
end CheckedLock
