import Mathlib.Logic.Function.Basic
import Mathlib.Tactic.SplitIfs
import PascalOutline.Proofs.Wording
import PascalOutline.Render.JsonText

/-! # A JSON text has one reading

  Two values with the same text are equal. Each part of a text shows where it
  ends, so this is said of parts with more text behind them: if two parts with
  their rests are the same text, the parts are equal and so are the rests.

  A string ends at the first quote that is no part of an escape. A number ends
  where no digit follows; a comma or a line end comes after it. The first
  character of a value tells what it is.
-/

namespace PascalOutline.Json

/-! ### Strings -/

/-- The value of a digit as `hexDigit` writes it. -/
def hexValue (c : Char) : Nat :=
  if c.isDigit then c.toNat - '0'.toNat else c.toNat - 'a'.toNat + 10

theorem hexValue_hexDigit {n : Nat} (h : n < 16) : hexValue (hexDigit n) = n := by
  revert n
  decide

/-- The first character of a text between quotes, and what is left; none at
    the closing quote. -/
def readChar? : List Char → Option (Char × List Char)
  | [] => none
  | '"' :: _ => none
  | '\\' :: 'b' :: rest => some ('\x08', rest)
  | '\\' :: 't' :: rest => some ('\t', rest)
  | '\\' :: 'n' :: rest => some ('\n', rest)
  | '\\' :: 'f' :: rest => some ('\x0c', rest)
  | '\\' :: 'r' :: rest => some ('\r', rest)
  | '\\' :: 'u' :: _ :: _ :: high :: low :: rest =>
    some (Char.ofNat (16 * hexValue high + hexValue low), rest)
  | '\\' :: c :: rest => some (c, rest)
  | c :: rest => some (c, rest)

theorem readChar?_escapedChar (c : Char) (rest : List Char) :
    readChar? (escapedChar c ++ rest) = some (c, rest) := by
  unfold escapedChar
  split_ifs with hquote hslash hback htab hline hfeed hreturn hcontrol
  case pos => rw [hquote]; rfl
  case pos => rw [hslash]; rfl
  case pos => rw [hback]; rfl
  case pos => rw [htab]; rfl
  case pos => rw [hline]; rfl
  case pos => rw [hfeed]; rfl
  case pos => rw [hreturn]; rfl
  case pos =>
    have hhigh : hexValue (hexDigit (c.toNat / 16)) = c.toNat / 16 := hexValue_hexDigit (by omega)
    have hlow : hexValue (hexDigit (c.toNat % 16)) = c.toNat % 16 := hexValue_hexDigit (by omega)
    have hread : 16 * hexValue (hexDigit (c.toNat / 16)) + hexValue (hexDigit (c.toNat % 16))
        = c.toNat := by
      rw [hhigh, hlow]
      exact Nat.div_add_mod c.toNat 16
    show some (Char.ofNat (16 * _ + _), rest) = _
    rw [hread, Char.ofNat_toNat]
  case neg =>
    rw [List.singleton_append]
    unfold readChar?
    split <;> simp_all

/-- Two texts between quotes are told apart. -/
theorem flatMap_escapedChar_append_inj {cs ds rest rest' : List Char}
    (h : cs.flatMap escapedChar ++ '"' :: rest = ds.flatMap escapedChar ++ '"' :: rest') :
    cs = ds ∧ rest = rest' := by
  induction cs generalizing ds with
  | nil =>
    cases ds with
    | nil => exact ⟨rfl, (List.cons.inj h).2⟩
    | cons d ds =>
      have hread := congrArg readChar? h
      rw [List.flatMap_cons, List.append_assoc, readChar?_escapedChar] at hread
      cases hread
  | cons c cs ih =>
    have hread := congrArg readChar? h
    rw [List.flatMap_cons, List.append_assoc, readChar?_escapedChar] at hread
    cases ds with
    | nil => cases hread
    | cons d ds =>
      rw [List.flatMap_cons, List.append_assoc, readChar?_escapedChar] at hread
      obtain ⟨rfl, htail⟩ := Prod.mk.inj (Option.some.inj hread)
      obtain ⟨rfl, hrest⟩ := ih htail
      exact ⟨rfl, hrest⟩

theorem quote_append (s : String) (rest : List Char) :
    quote s ++ rest = '"' :: (s.toList.flatMap escapedChar ++ '"' :: rest) := by
  rw [quote, List.append_assoc]
  rfl

theorem quote_append_inj {s t : String} {rest rest' : List Char}
    (h : quote s ++ rest = quote t ++ rest') : s = t ∧ rest = rest' := by
  rw [quote_append, quote_append] at h
  obtain ⟨htexts, hrest⟩ := flatMap_escapedChar_append_inj (List.cons.inj h).2
  exact ⟨String.toList_inj.mp htexts, hrest⟩

/-! ### Values -/

/-- What a value is. -/
inductive Shape where
  | string | number | bool | array | object
deriving DecidableEq, Repr

/-- What a value is. -/
def shape : Json → Shape
  | string _ => .string
  | number _ => .number
  | bool _ => .bool
  | array _ => .array
  | object _ => .object

/-- What a value is that begins with a character. -/
def shapeAt (c : Char) : Shape :=
  if c = '"' then .string
  else if c = '[' then .array
  else if c = '\x7b' then .object
  else if c.isDigit then .number
  else .bool

theorem shapeAt_of_isDigit {c : Char} (h : c.isDigit = true) : shapeAt c = .number := by
  unfold shapeAt
  have hquote : c ≠ '"' := by rintro rfl; revert h; decide
  have hbracket : c ≠ '[' := by rintro rfl; revert h; decide
  have hbrace : c ≠ '\x7b' := by rintro rfl; revert h; decide
  rw [if_neg hquote, if_neg hbracket, if_neg hbrace, if_pos h]

theorem exists_print_eq_cons (level : Nat) (v : Json) :
    ∃ c cs, print level v = c :: cs ∧ shapeAt c = v.shape := by
  cases v with
  | string value => exact ⟨_, _, rfl, rfl⟩
  | number value =>
    have hne : Nat.toDigits 10 value ≠ [] := Nat.toDigits_ne_nil
    obtain ⟨c, cs, hdigits⟩ := List.exists_cons_of_ne_nil hne
    refine ⟨c, cs, hdigits, shapeAt_of_isDigit ?_⟩
    exact Nat.isDigit_of_mem_toDigits (by decide) (by decide) (hdigits ▸ List.mem_cons_self)
  | bool value => cases value <;> exact ⟨_, _, rfl, rfl⟩
  | array items => cases items <;> exact ⟨_, _, rfl, rfl⟩
  | object members => cases members <;> exact ⟨_, _, rfl, rfl⟩

theorem shape_eq_of_print_append_eq {level : Nat} {v w : Json} {rest rest' : List Char}
    (h : print level v ++ rest = print level w ++ rest') : v.shape = w.shape := by
  obtain ⟨c, cs, hv, hshape⟩ := exists_print_eq_cons level v
  obtain ⟨d, ds, hw, hshape'⟩ := exists_print_eq_cons level w
  rw [hv, hw, List.cons_append, List.cons_append] at h
  rw [← hshape, ← hshape', (List.cons.inj h).1]

/-! ### Sequences -/

theorem noDigit_newLine_append (level : Nat) (cs : List Char) : NoDigit (newLine level ++ cs) :=
  noDigit_cons (by decide) _

theorem noDigit_printItems_append (level : Nat) (items : List Json) {rest : List Char}
    (h : NoDigit rest) : NoDigit (printItems level items ++ rest) := by
  cases items with
  | nil => exact h
  | cons item items => exact noDigit_cons (by decide) _

theorem noDigit_printMembers_append (level : Nat) (members : List (String × Json))
    {rest : List Char} (h : NoDigit rest) : NoDigit (printMembers level members ++ rest) := by
  cases members with
  | nil => exact h
  | cons member members => exact noDigit_cons (by decide) _

mutual

/-- Two values are told apart, whatever follows their texts. -/
theorem print_append_inj (level : Nat) (v w : Json) {rest rest' : List Char}
    (hrest : NoDigit rest) (hrest' : NoDigit rest')
    (h : print level v ++ rest = print level w ++ rest') : v = w ∧ rest = rest' := by
  have hshape := shape_eq_of_print_append_eq h
  match v, w, hshape with
  | string s, string t, _ =>
    obtain ⟨rfl, htail⟩ := quote_append_inj h
    exact ⟨rfl, htail⟩
  | number m, number n, _ =>
    obtain ⟨rfl, htail⟩ := toDigits_append_inj hrest hrest' h
    exact ⟨rfl, htail⟩
  | bool a, bool b, _ =>
    cases a <;> cases b <;> simp [print] at h <;> simp [h]
  | array [], array [], _ => exact ⟨rfl, by simpa [print] using h⟩
  | array [], array (_ :: _), _ => simp [print, newLine] at h
  | array (_ :: _), array [], _ => simp [print, newLine] at h
  | array (item :: items), array (item' :: items'), _ =>
    simp only [print, List.cons_append, List.append_assoc, List.cons.injEq, true_and,
      List.append_cancel_left_eq] at h
    obtain ⟨rfl, htail⟩ := print_append_inj (level + 1) item item'
      (noDigit_printItems_append _ _ (noDigit_newLine_append _ _))
      (noDigit_printItems_append _ _ (noDigit_newLine_append _ _)) h
    obtain ⟨rfl, hend⟩ := printItems_append_inj (level + 1) items items' htail
    exact ⟨rfl, by simpa using hend⟩
  | object [], object [], _ => exact ⟨rfl, by simpa [print] using h⟩
  | object [], object (_ :: _), _ => simp [print, newLine] at h
  | object (_ :: _), object [], _ => simp [print, newLine] at h
  | object ((name, value) :: members), object ((name', value') :: members'), _ =>
    simp only [print, List.cons_append, List.append_assoc, List.cons.injEq, true_and,
      List.append_cancel_left_eq] at h
    obtain ⟨rfl, hvalue⟩ := quote_append_inj h
    simp only [List.cons.injEq, true_and] at hvalue
    obtain ⟨rfl, htail⟩ := print_append_inj (level + 1) value value'
      (noDigit_printMembers_append _ _ (noDigit_newLine_append _ _))
      (noDigit_printMembers_append _ _ (noDigit_newLine_append _ _)) hvalue
    obtain ⟨rfl, hend⟩ := printMembers_append_inj (level + 1) members members' htail
    exact ⟨rfl, by simpa using hend⟩

/-- The items of a list end at a line end. -/
theorem printItems_append_inj (level : Nat) (items items' : List Json) {l l' : Nat}
    {rest rest' : List Char}
    (h : printItems level items ++ (newLine l ++ rest)
      = printItems level items' ++ (newLine l' ++ rest')) :
    items = items' ∧ newLine l ++ rest = newLine l' ++ rest' := by
  match items, items' with
  | [], [] => exact ⟨rfl, h⟩
  | [], _ :: _ => simp [printItems, newLine] at h
  | _ :: _, [] => simp [printItems, newLine] at h
  | item :: items, item' :: items' =>
    simp only [printItems, List.cons_append, List.append_assoc, List.cons.injEq, true_and,
      List.append_cancel_left_eq] at h
    obtain ⟨rfl, htail⟩ := print_append_inj level item item'
      (noDigit_printItems_append _ _ (noDigit_newLine_append _ _))
      (noDigit_printItems_append _ _ (noDigit_newLine_append _ _)) h
    obtain ⟨rfl, hend⟩ := printItems_append_inj level items items' htail
    exact ⟨rfl, hend⟩

/-- The members of an object end at a line end. -/
theorem printMembers_append_inj (level : Nat) (members members' : List (String × Json))
    {l l' : Nat} {rest rest' : List Char}
    (h : printMembers level members ++ (newLine l ++ rest)
      = printMembers level members' ++ (newLine l' ++ rest')) :
    members = members' ∧ newLine l ++ rest = newLine l' ++ rest' := by
  match members, members' with
  | [], [] => exact ⟨rfl, h⟩
  | [], (_, _) :: _ => simp [printMembers, newLine] at h
  | (_, _) :: _, [] => simp [printMembers, newLine] at h
  | (name, value) :: members, (name', value') :: members' =>
    simp only [printMembers, List.cons_append, List.append_assoc, List.cons.injEq, true_and,
      List.append_cancel_left_eq] at h
    obtain ⟨rfl, hvalue⟩ := quote_append_inj h
    simp only [List.cons.injEq, true_and] at hvalue
    obtain ⟨rfl, htail⟩ := print_append_inj level value value'
      (noDigit_printMembers_append _ _ (noDigit_newLine_append _ _))
      (noDigit_printMembers_append _ _ (noDigit_newLine_append _ _)) hvalue
    obtain ⟨rfl, hend⟩ := printMembers_append_inj level members members' htail
    exact ⟨rfl, hend⟩

end

/-- The text of a value determines it. -/
theorem document_injective : Function.Injective document := by
  intro v w h
  have htexts := congrArg String.toList h
  rw [document, document, String.toList_ofList, String.toList_ofList] at htexts
  have hend : NoDigit ['\n'] := noDigit_cons (by decide) []
  exact (print_append_inj 0 v w hend hend htexts).1

end PascalOutline.Json
