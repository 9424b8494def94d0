import Mathlib.Logic.Function.Basic
import PascalOutline.Diagnostic

/-! # Words and numbers in the output

  Kinds, visibilities and problems are written in words, places in decimal
  numbers. Each of them is known by what is written: no two kinds share a word
  and no two problems of a class a wording, and a number ends where no digit
  follows.
-/

namespace PascalOutline

/-! ### Numbers -/

/-- No digit comes first. -/
def NoDigit (cs : List Char) : Prop :=
  ∀ c ∈ cs.head?, c.isDigit = false

theorem noDigit_cons {c : Char} (h : c.isDigit = false) (cs : List Char) : NoDigit (c :: cs) := by
  intro d hd
  cases hd
  exact h

theorem takeWhile_isDigit_toDigits_append (n : Nat) {rest : List Char} (h : NoDigit rest) :
    (Nat.toDigits 10 n ++ rest).takeWhile Char.isDigit = Nat.toDigits 10 n := by
  rw [List.takeWhile_append_of_pos fun c hc =>
    Nat.isDigit_of_mem_toDigits (by decide) (by decide) hc]
  cases rest with
  | nil => rw [List.takeWhile_nil, List.append_nil]
  | cons c cs => rw [List.takeWhile_cons_of_neg (by rw [h c rfl]; decide), List.append_nil]

theorem toDigits_append_inj {m n : Nat} {rest rest' : List Char} (hrest : NoDigit rest)
    (hrest' : NoDigit rest') (h : Nat.toDigits 10 m ++ rest = Nat.toDigits 10 n ++ rest') :
    m = n ∧ rest = rest' := by
  have hdigits := congrArg (List.takeWhile Char.isDigit) h
  rw [takeWhile_isDigit_toDigits_append m hrest, takeWhile_isDigit_toDigits_append n hrest']
    at hdigits
  rw [hdigits] at h
  refine ⟨?_, List.append_cancel_left h⟩
  rw [← Nat.ofDigitChars_toDigits (b := 10) (n := m) (by decide) (by decide), hdigits,
    Nat.ofDigitChars_toDigits (by decide) (by decide)]

/-! ### Words -/

theorem EntryKind.word_injective : Function.Injective EntryKind.word := by
  intro a b
  cases a <;> cases b <;> decide

theorem Visibility.label_injective : Function.Injective Visibility.label := by
  intro a b
  cases a <;> cases b <;> decide

/-! ### Problems -/

namespace Problem

theorem toList_backquoted (cs : List Char) :
    (backquoted cs).toList = "`".toList ++ (cs ++ "`".toList) := by
  simp only [backquoted, String.toList_append, String.toList_ofList, List.append_assoc]

theorem message_wrongCloser (style : BlockStyle) (openedOn : Nat) :
    (wrongCloser style openedOn).message
      = "comment opened with " ++ backquoted style.opener ++ " at line " ++ toString openedOn
        ++ " is closed with " ++ backquoted style.other.closer
        ++ " instead of " ++ backquoted style.closer := rfl

theorem toList_message_wrongCloser (style : BlockStyle) (openedOn : Nat) :
    (wrongCloser style openedOn).message.toList
      = "comment opened with ".toList ++ ("`".toList ++ (style.opener ++ ("`".toList
        ++ (" at line ".toList ++ (Nat.toDigits 10 openedOn ++ (" is closed with ".toList
        ++ ((backquoted style.other.closer).toList
        ++ (" instead of ".toList ++ (backquoted style.closer).toList)))))))) := by
  rw [message_wrongCloser]
  simp only [String.toList_append, toList_backquoted style.opener, Nat.toString_eq_ofList_toDigits,
    String.toList_ofList, List.append_assoc]

theorem head?_message_strayCloser (style : BlockStyle) :
    (strayCloser style).message.toList.head? = some 's' := by
  cases style <;> decide +kernel

theorem head?_message_wrongCloser (style : BlockStyle) (openedOn : Nat) :
    (wrongCloser style openedOn).message.toList.head? = some 'c' := by
  rw [toList_message_wrongCloser]
  rfl

theorem strayCloser_message_injective {style style' : BlockStyle}
    (h : (strayCloser style).message = (strayCloser style').message) : style = style' := by
  revert h
  cases style <;> cases style' <;> decide +kernel

theorem wrongCloser_message_injective {style style' : BlockStyle} {openedOn openedOn' : Nat}
    (h : (wrongCloser style openedOn).message = (wrongCloser style' openedOn').message) :
    style = style' ∧ openedOn = openedOn' := by
  have htexts := congrArg String.toList h
  rw [toList_message_wrongCloser, toList_message_wrongCloser] at htexts
  have hopeners := List.append_cancel_left (List.append_cancel_left htexts)
  -- The openers differ in their first character.
  obtain rfl : style = style' := by
    cases style <;> cases style' <;> first | rfl | cases hopeners
  have hdigits := List.append_cancel_left
    (List.append_cancel_left (List.append_cancel_left hopeners))
  have hblank (cs : List Char) : NoDigit (" is closed with ".toList ++ cs) :=
    noDigit_cons (by decide) _
  exact ⟨rfl, (toDigits_append_inj (hblank _) (hblank _) hdigits).1⟩

theorem missingName_message_injective {kind kind' : EntryKind}
    (h : (missingName kind).message = (missingName kind').message) : kind = kind' :=
  EntryKind.word_injective ((String.append_left_inj _).mp h)

/-- A problem is known by its class and wording. -/
theorem eq_of_label_message {p q : Problem} (hlabel : p.label = q.label)
    (hmessage : p.message = q.message) : p = q := by
  have hhead := congrArg (fun text => text.toList.head?) hmessage
  have hclass : "comment-style-mismatch" ≠ "empty-name" := by decide
  cases p with
  | strayCloser style =>
    cases q with
    | strayCloser style' => rw [strayCloser_message_injective hmessage]
    | wrongCloser style' openedOn' =>
      rw [head?_message_strayCloser, head?_message_wrongCloser] at hhead
      cases hhead
    | missingName kind' => exact absurd hlabel hclass
  | wrongCloser style openedOn =>
    cases q with
    | strayCloser style' =>
      rw [head?_message_strayCloser, head?_message_wrongCloser] at hhead
      cases hhead
    | wrongCloser style' openedOn' =>
      obtain ⟨rfl, rfl⟩ := wrongCloser_message_injective hmessage
      rfl
    | missingName kind' => exact absurd hlabel hclass
  | missingName kind =>
    cases q with
    | strayCloser style' => exact absurd hlabel hclass.symm
    | wrongCloser style' openedOn' => exact absurd hlabel hclass.symm
    | missingName kind' => rw [missingName_message_injective hmessage]

end Problem

end PascalOutline
