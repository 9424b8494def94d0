import PascalOutline.Proofs.Bounds.Lexer

/-! # The bytes of a text

  A reader of single bytes tells from a byte alone whether it begins a
  character, continues one, or belongs to a line end. This module shows that it
  tells right: in the UTF-8 form of a text a byte continues a character if and
  only if its offset is no boundary, and the bytes of line feeds and carriage
  returns stand for nothing else.
-/

namespace PascalOutline

open Lexeme (byteLength)
open ByteReader (bytesOf isContinuation)

/-! ### The bytes of a character -/

namespace ByteReader

/-- A test that all bytes pass. -/
theorem forall_byte {p : UInt8 → Bool} (h : ∀ i : Fin 256, p (.ofFin i) = true) (b : UInt8) :
    p b = true :=
  h b.toFin

/-- A byte that begins a character and belongs to no line end. -/
def isPlainStart (b : UInt8) : Bool :=
  !isContinuation b && b != 0x0A && b != 0x0D

/-- The UTF-8 form of a character: its first byte continues no other character,
    and is a line end if and only if the character is; the other bytes continue
    it. -/
structure Encodes (c : Char) (b : UInt8) (bs : List UInt8) : Prop where
  /-- It consists of these bytes. -/
  bytes : String.utf8EncodeChar c = b :: bs
  /-- The first one begins a character. -/
  first : isContinuation b = false
  /-- The others continue it. -/
  others : ∀ x ∈ bs, isContinuation x = true
  /-- A line feed is one byte. -/
  lineFeed : b = 0x0A ↔ c = '\n'
  /-- A carriage return is one byte. -/
  carriageReturn : b = 0x0D ↔ c = '\r'

theorem isContinuation_tail (x : UInt8) : isContinuation (x &&& 0x3f ||| 0x80) = true :=
  forall_byte (p := fun x => isContinuation (x &&& 0x3f ||| 0x80)) (by decide +kernel) x

/-- A character of one byte has its number as that byte. -/
theorem encodes_of_le {c : Char} (h : c.val ≤ 127) : Encodes c c.val.toUInt8 [] := by
  have hsmall : c.val.toNat ≤ 127 := UInt32.le_iff_toNat_le.mp h
  have hbyte : c.val.toUInt8.toNat = c.val.toNat := by
    rw [UInt32.toNat_toUInt8]
    omega
  have heq {d : Char} (hd : d.val.toNat < 256) : c.val.toUInt8 = d.val.toUInt8 ↔ c = d := by
    rw [← UInt8.toNat_inj, hbyte, UInt32.toNat_toUInt8, Nat.mod_eq_of_lt hd, UInt32.toNat_inj,
      Char.val_inj]
  constructor
  case bytes => exact String.utf8EncodeChar_eq_singleton (Char.utf8Size_eq_one_iff.mpr h)
  case first =>
    have hhigh := forall_byte (p := fun b => !isContinuation b || 128 ≤ b.toNat)
      (by decide +kernel) c.val.toUInt8
    rw [Bool.or_eq_true, Bool.not_eq_true', decide_eq_true_eq, hbyte] at hhigh
    exact hhigh.resolve_right (by omega)
  case others => simp
  case lineFeed => exact heq (d := '\n') (by decide)
  case carriageReturn => exact heq (d := '\r') (by decide)

/-- A character of several bytes begins with a byte that says so. -/
theorem encodes_of_lt {c : Char} {b : UInt8} {bs : List UInt8} (h : 127 < c.val)
    (hbytes : String.utf8EncodeChar c = b :: bs) (hfirst : isPlainStart b = true)
    (hothers : ∀ x ∈ bs, isContinuation x = true) : Encodes c b bs := by
  have hne {d : Char} (hd : d.val ≤ 127) : c ≠ d := by
    rintro rfl
    exact absurd hd (UInt32.not_le.mpr h)
  simp only [isPlainStart, Bool.and_eq_true, Bool.not_eq_true', bne_iff_ne] at hfirst
  obtain ⟨⟨hstart, hfeed⟩, hreturn⟩ := hfirst
  exact ⟨hbytes, hstart, hothers, iff_of_false hfeed (hne (by decide)),
    iff_of_false hreturn (hne (by decide))⟩

theorem exists_encodes (c : Char) : ∃ b bs, Encodes c b bs := by
  rcases c.utf8Size_eq with h | h | h | h
  · exact ⟨_, _, encodes_of_le (Char.utf8Size_eq_one_iff.mp h)⟩
  · refine ⟨_, _, encodes_of_lt (Char.utf8Size_eq_two_iff.mp h).1
      (String.utf8EncodeChar_eq_cons_cons h) ?_ ?_⟩
    · exact forall_byte (p := fun x => isPlainStart (x &&& 0x1f ||| 0xc0)) (by decide +kernel) _
    · simp [isContinuation_tail]
  · have hlarge : 127 < c.val :=
      UInt32.lt_trans (by decide) (Char.utf8Size_eq_three_iff.mp h).1
    refine ⟨_, _, encodes_of_lt hlarge (String.utf8EncodeChar_eq_cons_cons_cons h) ?_ ?_⟩
    · exact forall_byte (p := fun x => isPlainStart (x &&& 0x0f ||| 0xe0)) (by decide +kernel) _
    · simp [isContinuation_tail]
  · have hlarge : 127 < c.val := UInt32.lt_trans (by decide) (Char.utf8Size_eq_four_iff.mp h)
    refine ⟨_, _, encodes_of_lt hlarge (String.utf8EncodeChar_eq_cons_cons_cons_cons h) ?_ ?_⟩
    · exact forall_byte (p := fun x => isPlainStart (x &&& 0x07 ||| 0xf0)) (by decide +kernel) _
    · simp [isContinuation_tail]

/-! ### The bytes of a text -/

/-- The UTF-8 form of some characters. -/
def bytesOfChars (cs : List Char) : List UInt8 :=
  cs.flatMap String.utf8EncodeChar

theorem bytesOfChars_append (cs ds : List Char) :
    bytesOfChars (cs ++ ds) = bytesOfChars cs ++ bytesOfChars ds :=
  List.flatMap_append

theorem length_bytesOfChars (cs : List Char) : (bytesOfChars cs).length = byteLength cs := by
  have hlength := length_bytesOf (String.ofList cs)
  rwa [bytesOf, String.toList_ofList, utf8ByteSize_ofList] at hlength

/-- Every byte of a text is one of a character. -/
theorem exists_char_of_lt {cs : List Char} {i : Nat} (h : i < byteLength cs) :
    ∃ pre c post k, cs = pre ++ c :: post ∧ i = byteLength pre + k ∧ k < c.utf8Size := by
  induction cs generalizing i with
  | nil => cases h
  | cons c cs ih =>
    rw [byteLength_cons] at h
    by_cases hi : i < c.utf8Size
    · exact ⟨[], c, cs, i, rfl, (Nat.zero_add i).symm, hi⟩
    · obtain ⟨pre, d, post, k, rfl, hk, hlt⟩ := ih (i := i - c.utf8Size) (by omega)
      refine ⟨c :: pre, d, post, k, rfl, ?_, hlt⟩
      rw [byteLength_cons]
      omega

/-- The bytes of a character stand where the bytes before it end. -/
theorem getElem?_bytesOf {source : String} {pre post : List Char} {c : Char} {k : Nat}
    (h : source.toList = pre ++ c :: post) (hk : k < c.utf8Size) :
    (bytesOf source)[byteLength pre + k]? = (String.utf8EncodeChar c)[k]? := by
  have hlength := String.length_utf8EncodeChar c
  have hbytes : bytesOf source
      = bytesOfChars pre ++ (String.utf8EncodeChar c ++ bytesOfChars post) := by
    show bytesOfChars source.toList = _
    rw [h, bytesOfChars_append]
    rfl
  rw [hbytes, List.getElem?_append_right (by rw [length_bytesOfChars]; omega),
    length_bytesOfChars, Nat.add_sub_cancel_left, List.getElem?_append_left (by omega)]

/-- A place inside of a character is no boundary. -/
theorem not_isBoundary {source : String} {pre post : List Char} {c : Char} {k : Nat}
    (h : source.toList = pre ++ c :: post) (hk : k < c.utf8Size) (hpos : 0 < k) :
    ¬ IsBoundary source (byteLength pre + k) := by
  intro hboundary
  rw [IsBoundary, String.Pos.Raw.isValid_iff_exists_append] at hboundary
  obtain ⟨s, t, hst, hs⟩ := hboundary
  have htext : s.toList ++ t.toList = pre ++ c :: post := by
    rw [← String.toList_append, ← hst, h]
  have hlength : byteLength s.toList = byteLength pre + k := by
    rw [← utf8ByteSize_eq_byteLength]
    exact (congrArg String.Pos.Raw.byteIdx hs).symm
  -- One of the two beginnings of the source goes on with the other one.
  rcases List.append_eq_append_iff.mp htext with ⟨more, hpre, _⟩ | ⟨more, hs, hrest⟩
  · rw [hpre, byteLength_append] at hlength
    omega
  · rw [hs, byteLength_append] at hlength
    cases more with
    | nil =>
      rw [byteLength_nil] at hlength
      omega
    | cons d more =>
      obtain ⟨rfl, _⟩ := List.cons.inj hrest
      rw [byteLength_cons] at hlength
      omega

/-- A byte of a source continues a character if and only if no character begins
    with it. -/
theorem isContinuation_iff {source : String} {i : Nat} {b : UInt8}
    (h : (bytesOf source)[i]? = some b) :
    isContinuation b = true ↔ ¬ IsBoundary source i := by
  have hi : i < byteLength source.toList := by
    rw [← length_bytesOfChars]
    exact (List.getElem?_eq_some_iff.mp h).1
  obtain ⟨pre, c, post, k, hsource, rfl, hk⟩ := exists_char_of_lt hi
  obtain ⟨first, others, hencodes⟩ := exists_encodes c
  have hb : (String.utf8EncodeChar c)[k]? = some b := (getElem?_bytesOf hsource hk).symm.trans h
  rw [hencodes.bytes] at hb
  cases k with
  | zero =>
    obtain rfl := Option.some.inj hb
    rw [hencodes.first]
    exact iff_of_false Bool.false_ne_true (not_not_intro (isBoundary_byteLength hsource))
  | succ k =>
    have hmem : b ∈ others := List.mem_of_getElem? hb
    exact iff_of_true (hencodes.others b hmem) (not_isBoundary hsource hk (Nat.succ_pos k))

end ByteReader

end PascalOutline
