import PascalOutline.ByteReader
import PascalOutline.Proofs.Correspondence.Respelling

/-! # Line ends

  A line may end with a line feed, a carriage return, or the pair of both. A
  source in which every line ends with a line feed has the outline of the
  source: the same entries with the same texts and documentation at the same
  lines and columns, and the same problems. Offsets count the bytes of the
  text with line feeds.
-/

namespace PascalOutline

open Lexeme (byteLength)

/-- A text with a line feed for every line end. -/
def normalizedChars : List Char → List Char
  | [] => []
  | '\r' :: '\n' :: cs => '\n' :: normalizedChars cs
  | c :: cs => (if c = '\r' then '\n' else c) :: normalizedChars cs

/-- A source with a line feed for every line end. -/
def normalized (source : String) : String :=
  String.ofList (normalizedChars source.toList)

/-- The number of bytes that stand before an offset of a source once every line
    end is a line feed. -/
def normalizedOffset (source : String) (offset : Nat) : Nat :=
  (normalized ((ByteReader.ofString source).slice ⟨0, offset⟩)).utf8ByteSize

/-- The place where a place of a source is once every line end is a line feed. -/
def Location.normalized (source : String) (place : Location) : Location :=
  { place with offset := normalizedOffset source place.offset }

/-- An entry of a source at its places once every line end is a line feed. -/
def Entry.normalized (source : String) (e : Entry) : Entry :=
  { e with start := e.start.normalized source, stop := e.stop.normalized source }

namespace ByteReader

theorem slice_byteLength {source : String} {pre post : List Char}
    (h : source.toList = pre ++ post) :
    (ofString source).slice ⟨0, byteLength pre⟩ = String.ofList pre := by
  rw [slice, if_pos (Nat.zero_le _)]
  show String.ofList (((dropBytes 0 source.toList).bind (takeBytes (byteLength pre))).getD []) = _
  rw [h, dropBytes, Option.bind_some, takeBytes_append, Option.getD_some]

end ByteReader

namespace Respelling

/-- Every line end as a line feed, and the letters as they are. -/
def normalizing : Respelling where
  char := id
  lineFeeds := true
  char_eq _ := .inl rfl

theorem chars_normalizing (cs : List Char) : normalizing.chars cs = normalizedChars cs := by
  fun_induction normalizedChars cs with
  | case1 => rfl
  | case2 cs ih => rw [chars, if_pos (by rfl), ih]
  | case3 c cs hpair ih =>
    rw [chars, ih]
    · congr 1
      simp [single, normalizing]
    · exact hpair

theorem apply_normalizing (source : String) : normalizing.apply source = normalized source := by
  rw [apply, chars_normalizing, normalized]

theorem SamePlace.eq_normalized {source : String} {a a' : Location}
    (h : normalizing.SamePlace source.toList a a') : a' = a.normalized source := by
  obtain ⟨pre, post, hsource, hoffset, hoffset'⟩ := h.offset
  have hnormal : normalizedOffset source a.offset = a'.offset := by
    rw [normalizedOffset, hoffset, ByteReader.slice_byteLength hsource, hoffset', chars_normalizing,
      normalized, String.toList_ofList, utf8ByteSize_ofList]
  obtain ⟨line', column', offset'⟩ := a'
  rw [Location.normalized, hnormal, Location.mk.injEq]
  exact ⟨h.line, h.column, rfl⟩

end Respelling

open Respelling

theorem Entry.eq_normalized_of_corresponds {source : String} {e e' : Entry}
    (h : e.Corresponds (normalizing.correspondence source.toList) e') :
    e' = e.normalized source := by
  have htext (s : String) : (normalizing.correspondence source.toList).text s = s := by
    show String.ofList (s.toList.map fun c => c) = s
    rw [List.map_id', String.ofList_toList]
  obtain ⟨doc, start, stop, rfl⟩ := h.exists_eq
  obtain rfl : doc = e.doc := (h.doc trivial).trans (htext e.doc)
  obtain rfl : start = e.start.normalized source := SamePlace.eq_normalized h.start
  obtain rfl : stop = e.stop.normalized source := SamePlace.eq_normalized h.stop
  simp [Entry.normalized, Entry.respell, funext htext]

/-- The scan of a source with a line feed for every line end is the scan of the
    source; only the offsets are those of the text with line feeds. -/
theorem scan_normalized (options : Options) (file source : String) :
    scan options file (normalized source)
      = (scan options file source).mapEntries (Entry.normalized source) := by
  rw [← apply_normalizing]
  exact normalizing.scan_apply options file source Entry.eq_normalized_of_corresponds

end PascalOutline
