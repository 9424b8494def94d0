import PascalOutline.ByteReader
import PascalOutline.Lexeme

/-! # Places in a source text

  A place in a text can be given by the characters before it, by a byte
  offset, or by a location. This module relates the three: the offset is the
  number of bytes of the characters before the place, and walking over a text
  moves a location by the bytes of that text and never backwards.

  Locations are compared by line and column first. A location `a` *precedes*
  a location `b` when both that order and the order of offsets say so; the
  two agree on all places that are reached by walking over one text.
-/

namespace PascalOutline

open Lexeme (byteLength)

/-! ### Bytes of a text -/

@[simp] theorem byteLength_nil : byteLength [] = 0 := rfl

@[simp] theorem byteLength_cons (c : Char) (cs : List Char) :
    byteLength (c :: cs) = c.utf8Size + byteLength cs := rfl

@[simp] theorem byteLength_append (cs ds : List Char) :
    byteLength (cs ++ ds) = byteLength cs + byteLength ds := by
  induction cs with
  | nil => simp
  | cons c cs ih => simp [ih, Nat.add_assoc]

theorem byteLength_pos {cs : List Char} (h : cs ≠ []) : 0 < byteLength cs := by
  cases cs with
  | nil => exact absurd rfl h
  | cons c cs =>
    have hc := c.utf8Size_pos
    simp only [byteLength_cons]
    omega

theorem utf8ByteSize_ofList (cs : List Char) :
    (String.ofList cs).utf8ByteSize = byteLength cs := by
  induction cs with
  | nil => rfl
  | cons c cs ih =>
    rw [String.ofList_cons, String.utf8ByteSize_append, String.utf8ByteSize_singleton, ih,
      byteLength_cons]

theorem utf8ByteSize_eq_byteLength (source : String) :
    source.utf8ByteSize = byteLength source.toList := by
  rw [← utf8ByteSize_ofList, String.ofList_toList]

namespace ByteReader

theorem dropBytes_append (before after : List Char) :
    dropBytes (byteLength before) (before ++ after) = some after := by
  induction before with
  | nil => cases after <;> rfl
  | cons c before ih =>
    obtain ⟨n, hn⟩ : ∃ n, c.utf8Size + byteLength before = n + 1 :=
      ⟨c.utf8Size + byteLength before - 1, by have hc := c.utf8Size_pos; omega⟩
    rw [byteLength_cons, hn, List.cons_append, dropBytes, if_pos (by omega),
      show n + 1 - c.utf8Size = byteLength before by omega]
    exact ih

theorem takeBytes_append (cs after : List Char) :
    takeBytes (byteLength cs) (cs ++ after) = some cs := by
  induction cs with
  | nil => cases after <;> rfl
  | cons c cs ih =>
    obtain ⟨n, hn⟩ : ∃ n, c.utf8Size + byteLength cs = n + 1 :=
      ⟨c.utf8Size + byteLength cs - 1, by have hc := c.utf8Size_pos; omega⟩
    rw [byteLength_cons, hn, List.cons_append, takeBytes, if_pos (by omega),
      show n + 1 - c.utf8Size = byteLength cs by omega, ih]
    rfl

end ByteReader

/-! ### Byte offsets -/

/-- Whether a byte offset lies between two characters of a source, or at one
    of its ends. -/
def IsBoundary (source : String) (offset : Nat) : Prop :=
  String.Pos.Raw.IsValid source ⟨offset⟩

/-- The bytes of a source in a range of offsets. -/
def Span.bytes (span : Span) (source : String) : ByteArray :=
  source.toByteArray.extract span.start span.stop

section Offsets

variable {source : String} {before cs after : List Char}

theorem isBoundary_byteLength (h : source.toList = before ++ after) :
    IsBoundary source (byteLength before) := by
  rw [IsBoundary, String.Pos.Raw.isValid_iff_exists_append]
  refine ⟨String.ofList before, String.ofList after, ?_, ?_⟩
  · rw [← String.ofList_append, ← h, String.ofList_toList]
  · rw [String.rawEndPos, utf8ByteSize_ofList]

end Offsets

/-! ### The order of locations -/

namespace Location

variable {a b c : Location}

theorem le_def : a ≤ b ↔ a.line < b.line ∨ a.line = b.line ∧
    (a.column < b.column ∨ a.column = b.column ∧ a.offset ≤ b.offset) := Iff.rfl

theorem le_refl (a : Location) : a ≤ a := by
  rw [le_def]
  omega

theorem le_trans (hab : a ≤ b) (hbc : b ≤ c) : a ≤ c := by
  rw [le_def] at *
  omega

theorem le_antisymm (hab : a ≤ b) (hba : b ≤ a) : a = b := by
  obtain ⟨aline, acolumn, aoffset⟩ := a
  obtain ⟨bline, bcolumn, boffset⟩ := b
  simp only [le_def, mk.injEq] at *
  omega

theorem max_eq_left (h : b ≤ a) : max a b = a := by
  show (if a ≤ b then b else a) = a
  by_cases hab : a ≤ b
  · -- The maximum is then `b`, which is the same place.
    rw [if_pos hab]
    exact le_antisymm h hab
  · rw [if_neg hab]

theorem le_max_left (a b : Location) : a ≤ max a b := by
  show a ≤ if a ≤ b then b else a
  by_cases hab : a ≤ b
  · rwa [if_pos hab]
  · rw [if_neg hab]
    exact le_refl a

theorem le_max_right (a b : Location) : b ≤ max a b := by
  show b ≤ if a ≤ b then b else a
  by_cases hab : a ≤ b
  · rw [if_pos hab]
    exact le_refl b
  · rw [if_neg hab]
    rw [le_def] at *
    omega

/-- `a` comes before `b`, or is the same place, by both orders. -/
structure Precedes (a b : Location) : Prop where
  /-- By line and column. -/
  order : a ≤ b
  /-- By offset. -/
  offset : a.offset ≤ b.offset

theorem Precedes.refl (a : Location) : a.Precedes a :=
  ⟨le_refl a, Nat.le_refl _⟩

theorem Precedes.trans (hab : a.Precedes b) (hbc : b.Precedes c) : a.Precedes c :=
  ⟨le_trans hab.order hbc.order, Nat.le_trans hab.offset hbc.offset⟩

theorem Precedes.max_eq_left (h : b.Precedes a) : max a b = a :=
  Location.max_eq_left h.order

/-! ### Walking over a text -/

theorem offset_after (a : Location) (cs : List Char) :
    (a.after cs).offset = a.offset + byteLength cs := by
  fun_induction after a cs with
  | case1 a => rfl
  | case2 a cs ih =>
    -- A carriage return and its line feed end one line with two bytes.
    rw [ih]
    show a.offset + 2 + byteLength cs = a.offset + (1 + (1 + byteLength cs))
    omega
  | case3 a c cs _ hc ih =>
    have hsize : c.utf8Size = 1 := by
      rcases hc with rfl | rfl <;> rfl
    rw [ih, byteLength_cons, hsize]
    show a.offset + 1 + byteLength cs = a.offset + (1 + byteLength cs)
    omega
  | case4 a c cs _ hc ih =>
    rw [ih, byteLength_cons]
    show a.offset + c.utf8Size + byteLength cs = a.offset + (c.utf8Size + byteLength cs)
    omega

theorem precedes_nextLine (a : Location) (bytes : Nat) : a.Precedes (a.nextLine bytes) := by
  constructor
  · exact Or.inl (Nat.lt_succ_self _)
  · exact Nat.le_add_right _ _

theorem precedes_nextColumn (a : Location) (c : Char) : a.Precedes (a.nextColumn c) := by
  constructor
  · exact Or.inr ⟨rfl, Or.inl (Nat.lt_succ_self _)⟩
  · exact Nat.le_add_right _ _

theorem precedes_after (a : Location) (cs : List Char) : a.Precedes (a.after cs) := by
  fun_induction after a cs with
  | case1 a => exact .refl a
  | case2 a cs ih => exact (a.precedes_nextLine 2).trans ih
  | case3 a c cs _ _ ih => exact (a.precedes_nextLine 1).trans ih
  | case4 a c cs _ _ ih => exact (a.precedes_nextColumn c).trans ih

end Location

end PascalOutline
