/-! # Letter case

  Pascal does not distinguish the case of ASCII letters. Other letters are
  compared as they stand.
-/

namespace PascalOutline

/-- The text with its ASCII letters in lower case. -/
def lowered (s : String) : String :=
  String.ofList (s.toList.map Char.toLower)

/-- Equality up to the case of ASCII letters. -/
def sameWord (s t : String) : Bool :=
  s.toList.map Char.toLower == t.toList.map Char.toLower

/-- Whether a text is in a list of words, up to the case of ASCII letters. -/
def isOneOf (s : String) (words : List String) : Bool :=
  words.any (sameWord s)

@[simp] theorem toList_lowered (s : String) : (lowered s).toList = s.toList.map Char.toLower :=
  String.toList_ofList

/-- Two texts are the same word when they agree in lower case. -/
theorem sameWord_iff {s t : String} : sameWord s t = true ↔ lowered s = lowered t := by
  simp [sameWord, ← String.toList_inj]

end PascalOutline
