import Mathlib.Data.Nat.Count
import PascalOutline.Proofs.Lexeme.Tiling
import PascalOutline.Proofs.Text.Bytes

/-! # Locations tell what was read

  The location of a reader is a function of the bytes that it has read:
  `Location.ofPrefix` counts, among the first bytes of a source, those that
  complete a line end, and the characters that begin after the last one of
  these. A reader keeps these counts byte by byte, and may stop inside of a
  character or between a carriage return and its line feed; however it got
  there, its location is the one of the place.

  The lexer walks over the same text by characters. It stops only between
  characters and never inside of a line end, and there it finds the same
  locations; so the order of the locations of lexemes is the order of their
  offsets.
-/

namespace PascalOutline

open Lexeme (byteLength)
open ByteReader (bytesOf isContinuation)

/-! ### The location of a byte offset -/

instance (source : String) (offset : Nat) : Decidable (IsBoundary source offset) :=
  inferInstanceAs (Decidable (String.Pos.Raw.IsValid source ⟨offset⟩))

namespace Location

/-- The byte at `i` completes a line end: it is a line feed, or a carriage return
    that no line feed follows. -/
def CompletesLine (bytes : List UInt8) (i : Nat) : Prop :=
  bytes[i]? = some 0x0A ∨ bytes[i]? = some 0x0D ∧ bytes[i + 1]? ≠ some 0x0A

instance (bytes : List UInt8) (i : Nat) : Decidable (CompletesLine bytes i) :=
  inferInstanceAs (Decidable (_ ∨ _))

/-- The byte at `i` is the first one of a character, other than a carriage
    return that a line feed follows. -/
def BeginsColumn (source : String) (i : Nat) : Prop :=
  IsBoundary source i ∧
    ¬ ((bytesOf source)[i]? = some 0x0D ∧ (bytesOf source)[i + 1]? = some 0x0A)

instance (source : String) (i : Nat) : Decidable (BeginsColumn source i) :=
  inferInstanceAs (Decidable (_ ∧ _))

/-- The byte at `i` begins a column, and no line end is completed from there on
    within the first `n` bytes. -/
def OnLastLine (source : String) (n i : Nat) : Prop :=
  BeginsColumn source i ∧ ∀ j < n, i ≤ j → ¬ CompletesLine (bytesOf source) j

instance (source : String) (n i : Nat) : Decidable (OnLastLine source n i) :=
  inferInstanceAs (Decidable (_ ∧ ∀ j < n, _ → _))

/-- The location after the first `n` bytes of a source. Its line is one more than
    the number of line ends that they complete, and its column one more than the
    number of characters that they begin after the last of these line ends. -/
def ofPrefix (source : String) (n : Nat) : Location :=
  ⟨1 + Nat.count (CompletesLine (bytesOf source)) n, 1 + Nat.count (OnLastLine source n) n, n⟩

end Location

/-! ### One more byte -/

namespace Location

variable {source : String} {n : Nat}

/-- At a line end a new line begins. -/
theorem ofPrefix_succ_of_completesLine (h : CompletesLine (bytesOf source) n) :
    ofPrefix source (n + 1) = (ofPrefix source n).nextLine 1 := by
  have hcolumn : Nat.count (OnLastLine source (n + 1)) (n + 1) = 0 := by
    rw [Nat.count_iff_forall_not]
    intro i hi honLine
    exact honLine.2 n (Nat.lt_succ_self n) (Nat.le_of_lt_succ hi) h
  rw [ofPrefix, hcolumn, Nat.count_succ, if_pos h]
  rfl

theorem onLastLine_succ (h : ¬ CompletesLine (bytesOf source) n) (i : Nat) :
    OnLastLine source (n + 1) i ↔ OnLastLine source n i := by
  constructor
  · intro ⟨hbegins, hline⟩
    exact ⟨hbegins, fun j hj => hline j (Nat.lt_succ_of_lt hj)⟩
  · intro ⟨hbegins, hline⟩
    refine ⟨hbegins, fun j hj hle => ?_⟩
    rcases Nat.lt_succ_iff_lt_or_eq.mp hj with hlt | rfl
    · exact hline j hlt hle
    · exact h

theorem onLastLine_self : OnLastLine source n n ↔ BeginsColumn source n :=
  ⟨fun h => h.1, fun h => ⟨h, fun _ hj hle => absurd hj (Nat.not_lt.mpr hle)⟩⟩

theorem count_onLastLine_succ (h : ¬ CompletesLine (bytesOf source) n) :
    Nat.count (OnLastLine source (n + 1)) (n + 1)
      = Nat.count (OnLastLine source n) n + if BeginsColumn source n then 1 else 0 := by
  have hbefore : Nat.count (OnLastLine source (n + 1)) n = Nat.count (OnLastLine source n) n := by
    rw [Nat.count_eq_card_filter_range, Nat.count_eq_card_filter_range]
    exact congrArg Finset.card (Finset.filter_congr fun i _ => onLastLine_succ h i)
  have hlast : OnLastLine source (n + 1) n ↔ BeginsColumn source n :=
    (onLastLine_succ h n).trans onLastLine_self
  rw [Nat.count_succ, hbefore]
  exact congrArg _ (if_congr hlast rfl rfl)

/-- Any other byte stays on the line. -/
theorem ofPrefix_succ_of_not_completesLine (h : ¬ CompletesLine (bytesOf source) n) :
    ofPrefix source (n + 1)
      = ⟨(ofPrefix source n).line,
          (ofPrefix source n).column + if BeginsColumn source n then 1 else 0, n + 1⟩ := by
  rw [ofPrefix, count_onLastLine_succ h, Nat.count_succ, if_neg h, Nat.add_zero, ← Nat.add_assoc]
  rfl

/-- Locations follow each other in the order of their offsets. -/
theorem precedes_ofPrefix_succ (source : String) (n : Nat) :
    (ofPrefix source n).Precedes (ofPrefix source (n + 1)) := by
  by_cases h : CompletesLine (bytesOf source) n
  · rw [ofPrefix_succ_of_completesLine h]
    exact precedes_nextLine _ 1
  · rw [ofPrefix_succ_of_not_completesLine h]
    constructor
    case order =>
      rw [le_def]
      dsimp only
      split
      · omega
      · exact .inr ⟨rfl, .inr ⟨rfl, Nat.le_succ n⟩⟩
    case offset => exact Nat.le_succ n

theorem precedes_ofPrefix {m n : Nat} (h : m ≤ n) :
    (ofPrefix source m).Precedes (ofPrefix source n) := by
  induction h with
  | refl => exact .refl _
  | step _ ih => exact ih.trans (precedes_ofPrefix_succ source _)

/-- The order of places in one source is the order of their offsets. -/
theorem ofPrefix_le_iff {m n : Nat} : ofPrefix source m ≤ ofPrefix source n ↔ m ≤ n := by
  refine ⟨fun h => ?_, fun h => (precedes_ofPrefix h).order⟩
  by_contra hlt
  have hge : ofPrefix source n ≤ ofPrefix source m :=
    (precedes_ofPrefix (Nat.le_of_not_le hlt)).order
  have heq : m = n := congrArg offset (le_antisymm h hge)
  exact hlt (Nat.le_of_eq heq)

end Location

/-! ### Reading byte by byte -/

namespace ByteReader

open Location

/-- A reader of a source has read its first `n` bytes. -/
structure HasRead (source : String) (n : Nat) (r : ByteReader) : Prop where
  /-- There are so many. -/
  le : n ≤ source.utf8ByteSize
  /-- The others lie ahead. -/
  ahead : r.ahead = (bytesOf source).drop n
  /-- It stands where the first `n` bytes lead. -/
  location : r.location = ofPrefix source n

variable {source : String} {r : ByteReader} {n : Nat}

theorem hasRead_ofString (source : String) : (ofString source).HasRead source 0 :=
  ⟨Nat.zero_le _, rfl, rfl⟩

/-- One byte leads to the location of the next offset. -/
theorem locationAfter_ofPrefix {b : UInt8} (hb : (bytesOf source)[n]? = some b) :
    locationAfter (ofPrefix source n) b ((bytesOf source).drop (n + 1))
      = ofPrefix source (n + 1) := by
  have hnext : ((bytesOf source).drop (n + 1)).head? = (bytesOf source)[n + 1]? := List.head?_drop
  have hcompletes : CompletesLine (bytesOf source) n ↔
      b = 0x0A ∨ b = 0x0D ∧ (bytesOf source)[n + 1]? ≠ some 0x0A := by
    simp [CompletesLine, hb]
  have hbegins : BeginsColumn source n ↔
      ¬ isContinuation b = true ∧ ¬ (b = 0x0D ∧ (bytesOf source)[n + 1]? = some 0x0A) := by
    rw [BeginsColumn, isContinuation_iff hb, not_not, hb, Option.some.injEq]
  rw [locationAfter, hnext]
  split
  · next hends => rw [ofPrefix_succ_of_completesLine (hcompletes.mpr hends)]
  · next hends =>
    rw [ofPrefix_succ_of_not_completesLine (mt hcompletes.mp hends)]
    rw [not_or, not_and_or, not_not] at hends
    -- Before a line feed a carriage return is the only byte left to tell apart.
    split
    · next hno =>
      have hnot : ¬ BeginsColumn source n := by
        rw [hbegins]
        rintro ⟨hfirst, hpair⟩
        rcases hno with hreturn | hcontinues
        · exact hpair ⟨hreturn, hends.2.resolve_left (not_not_intro hreturn)⟩
        · exact hfirst hcontinues
      rw [if_neg hnot]
      rfl
    · next hno =>
      rw [not_or] at hno
      have hcolumn : BeginsColumn source n := hbegins.mpr ⟨hno.2, fun hpair => hno.1 hpair.1⟩
      rw [if_pos hcolumn]
      rfl

theorem HasRead.next (h : r.HasRead source n) :
    r.next.HasRead source (min (n + 1) source.utf8ByteSize) := by
  obtain ⟨text, ahead, place⟩ := r
  have hahead : ahead = (bytesOf source).drop n := h.ahead
  have hplace : place = ofPrefix source n := h.location
  have hlength := length_bytesOf source
  cases ahead with
  | nil =>
    have hend : source.utf8ByteSize ≤ n := by
      rw [← hlength]
      exact List.drop_eq_nil_iff.mp hahead.symm
    have hn : min (n + 1) source.utf8ByteSize = n := by
      have hle := h.le
      omega
    rw [hn]
    exact h
  | cons b rest =>
    have hlt : n < (bytesOf source).length := by
      by_contra hge
      rw [List.drop_eq_nil_of_le (by omega)] at hahead
      cases hahead
    have hn : min (n + 1) source.utf8ByteSize = n + 1 := by omega
    rw [List.drop_eq_getElem_cons hlt] at hahead
    obtain ⟨hb, hrest⟩ := List.cons.inj hahead
    rw [hn]
    constructor
    case le => omega
    case ahead => exact hrest
    case location =>
      show locationAfter place b rest = _
      rw [hplace, hrest]
      exact locationAfter_ofPrefix (by rw [hb]; exact List.getElem?_eq_getElem hlt)

theorem HasRead.steps (h : r.HasRead source n) (k : Nat) :
    (r.steps k).HasRead source (min (n + k) source.utf8ByteSize) := by
  induction k generalizing r n with
  | zero =>
    rw [Nat.add_zero, Nat.min_eq_left h.le]
    exact h
  | succ k ih =>
    have hstep := ih h.next
    have hn : min (min (n + 1) source.utf8ByteSize + k) source.utf8ByteSize
        = min (n + (k + 1)) source.utf8ByteSize := by omega
    rwa [hn] at hstep

/-- Reading stops at the end by itself, so the number of bytes need not be cut
    down to those that are left. -/
theorem HasRead.skip (h : r.HasRead source n) (k : Nat) :
    (r.skip k).HasRead source (min (n + k) source.utf8ByteSize) := by
  have hread := h.steps (min k r.ahead.length)
  have hn : min (n + min k r.ahead.length) source.utf8ByteSize
      = min (n + k) source.utf8ByteSize := by
    have hle := h.le
    rw [h.ahead, List.length_drop, length_bytesOf]
    omega
  rwa [hn] at hread

/-- An operation on a reader. -/
inductive Operation where
  /-- Look at the byte some places ahead. -/
  | peekAt (n : Nat)
  /-- Ask whether every byte was read. -/
  | atEnd
  /-- Ask whether a text lies ahead. -/
  | startsWith (text : String)
  /-- Read one byte. -/
  | next
  /-- Read some bytes. -/
  | skip (n : Nat)
  /-- Read all bytes in a row that satisfy a test. A test that changes its mind
      reads as many bytes as some `skip` does. -/
  | skipWhile (p : UInt8 → Bool)

/-- The reader after an operation. Looking leaves it where it is. -/
def Operation.apply : Operation → ByteReader → ByteReader
  | peekAt _, r | atEnd, r | startsWith _, r => r
  | next, r => r.next
  | skip n, r => r.skip n
  | skipWhile p, r => r.skipWhile p

/-- The reader after some operations, one after the other. -/
def run (ops : List Operation) (r : ByteReader) : ByteReader :=
  ops.foldl (fun r op => op.apply r) r

theorem HasRead.apply (h : r.HasRead source n) (op : Operation) :
    ∃ m, (op.apply r).HasRead source m := by
  cases op with
  | peekAt _ => exact ⟨n, h⟩
  | atEnd => exact ⟨n, h⟩
  | startsWith _ => exact ⟨n, h⟩
  | next => exact ⟨_, h.next⟩
  | skip k => exact ⟨_, h.skip k⟩
  | skipWhile p => exact ⟨_, h.skip (r.runLength p)⟩

theorem HasRead.run (h : r.HasRead source n) (ops : List Operation) :
    ∃ m, (run ops r).HasRead source m := by
  induction ops generalizing r n with
  | nil => exact ⟨n, h⟩
  | cons op ops ih =>
    obtain ⟨m, hm⟩ := h.apply op
    exact ih hm

end ByteReader

/-! ### Reading character by character -/

namespace Location

variable {source : String} {pre post : List Char} {c : Char}

/-- The first byte of a character is that of a line end if and only if the
    character is. -/
theorem exists_firstByte (h : source.toList = pre ++ c :: post) :
    ∃ b, (bytesOf source)[byteLength pre]? = some b ∧
      (b = 0x0A ↔ c = '\n') ∧ (b = 0x0D ↔ c = '\r') := by
  obtain ⟨b, bs, hencodes⟩ := ByteReader.exists_encodes c
  have hbyte := ByteReader.getElem?_bytesOf h c.utf8Size_pos
  rw [hencodes.bytes] at hbyte
  exact ⟨b, hbyte, hencodes.lineFeed, hencodes.carriageReturn⟩

theorem nextByte_eq_lineFeed_iff (h : source.toList = pre ++ '\r' :: post) :
    (bytesOf source)[byteLength pre + 1]? = some 0x0A ↔ post.head? = some '\n' := by
  have hplace : byteLength pre + 1 = byteLength (pre ++ ['\r']) := by
    rw [byteLength_append]
    rfl
  rw [List.append_cons] at h
  rw [hplace]
  cases post with
  | nil =>
    have hend : (bytesOf source).length ≤ byteLength (pre ++ ['\r']) := by
      rw [ByteReader.length_bytesOf, utf8ByteSize_eq_byteLength, h, List.append_nil]
    rw [List.getElem?_eq_none hend]
    exact iff_of_false nofun nofun
  | cons d post =>
    obtain ⟨b, hb, hlineFeed, _⟩ := exists_firstByte h
    rw [hb, List.head?_cons, Option.some.injEq, Option.some.injEq, hlineFeed]

theorem completesLine_iff (h : source.toList = pre ++ c :: post) :
    CompletesLine (bytesOf source) (byteLength pre) ↔
      c = '\n' ∨ c = '\r' ∧ post.head? ≠ some '\n' := by
  obtain ⟨b, hb, hlineFeed, hreturn⟩ := exists_firstByte h
  rw [CompletesLine, hb, Option.some.injEq, Option.some.injEq, hlineFeed, hreturn]
  refine or_congr_right (and_congr_right fun hc => not_congr ?_)
  subst hc
  exact nextByte_eq_lineFeed_iff h

theorem beginsColumn_iff (h : source.toList = pre ++ c :: post) :
    BeginsColumn source (byteLength pre) ↔ ¬ (c = '\r' ∧ post.head? = some '\n') := by
  obtain ⟨b, hb, _, hreturn⟩ := exists_firstByte h
  rw [BeginsColumn, and_iff_right (isBoundary_byteLength h), hb, Option.some.injEq, hreturn]
  refine not_congr (and_congr_right fun hc => ?_)
  subst hc
  exact nextByte_eq_lineFeed_iff h

/-- Inside of a character nothing changes but the offset. -/
theorem ofPrefix_succ_of_inside {k : Nat} (h : source.toList = pre ++ c :: post)
    (hpos : 0 < k) (hk : k < c.utf8Size) :
    ofPrefix source (byteLength pre + k + 1)
      = { ofPrefix source (byteLength pre + k) with offset := byteLength pre + k + 1 } := by
  have hinside : ¬ IsBoundary source (byteLength pre + k) := ByteReader.not_isBoundary h hk hpos
  have hplain : ¬ CompletesLine (bytesOf source) (byteLength pre + k) := by
    -- A byte that continues a character is no line end.
    have hcontinues {b : UInt8} (hb : (bytesOf source)[byteLength pre + k]? = some b) :
        isContinuation b = true := (ByteReader.isContinuation_iff hb).mpr hinside
    rintro (hlineFeed | ⟨hreturn, _⟩)
    · exact absurd (hcontinues hlineFeed) (by decide)
    · exact absurd (hcontinues hreturn) (by decide)
  rw [ofPrefix_succ_of_not_completesLine hplain, if_neg fun hbegins => hinside hbegins.1]
  rfl

/-- A character that belongs to no line end takes one column. -/
theorem ofPrefix_plain (h : source.toList = pre ++ c :: post) (hlineFeed : c ≠ '\n')
    (hreturn : c ≠ '\r') :
    ofPrefix source (byteLength (pre ++ [c]))
      = (ofPrefix source (byteLength pre)).nextColumn c := by
  have hplain : ¬ CompletesLine (bytesOf source) (byteLength pre) := by
    rw [completesLine_iff h]
    exact not_or.mpr ⟨hlineFeed, fun hc => hreturn hc.1⟩
  have hbegins : BeginsColumn source (byteLength pre) :=
    (beginsColumn_iff h).mpr fun hc => hreturn hc.1
  -- The first byte begins the column, the others follow by induction.
  have hbytes (k : Nat) (hk : k < c.utf8Size) : ofPrefix source (byteLength pre + k + 1)
      = ⟨(ofPrefix source (byteLength pre)).line, (ofPrefix source (byteLength pre)).column + 1,
          byteLength pre + k + 1⟩ := by
    induction k with
    | zero => rw [Nat.add_zero, ofPrefix_succ_of_not_completesLine hplain, if_pos hbegins]
    | succ k ih =>
      have hbefore := ih (Nat.lt_of_succ_lt hk)
      rw [Nat.add_assoc] at hbefore
      rw [ofPrefix_succ_of_inside h (Nat.succ_pos k) hk, hbefore]
  have hsize := c.utf8Size_pos
  have hlast := hbytes (c.utf8Size - 1) (by omega)
  rw [Nat.add_assoc, Nat.sub_add_cancel hsize] at hlast
  rw [byteLength_append]
  exact hlast

/-- A line end of one byte. -/
theorem ofPrefix_lineEnd (h : source.toList = pre ++ c :: post)
    (hends : c = '\n' ∨ c = '\r' ∧ post.head? ≠ some '\n') :
    ofPrefix source (byteLength (pre ++ [c])) = (ofPrefix source (byteLength pre)).nextLine 1 := by
  have hsize : byteLength [c] = 1 := by
    rcases hends with rfl | ⟨rfl, _⟩ <;> rfl
  rw [byteLength_append, hsize]
  exact ofPrefix_succ_of_completesLine ((completesLine_iff h).mpr hends)

/-- A carriage return and its line feed end one line. -/
theorem ofPrefix_pair (h : source.toList = pre ++ '\r' :: '\n' :: post) :
    ofPrefix source (byteLength (pre ++ ['\r', '\n']))
      = (ofPrefix source (byteLength pre)).nextLine 2 := by
  have hwaits : ¬ CompletesLine (bytesOf source) (byteLength pre) := by
    rw [completesLine_iff h]
    simp
  have hlineFeed : CompletesLine (bytesOf source) (byteLength pre + 1) :=
    .inl ((nextByte_eq_lineFeed_iff h).mpr rfl)
  have hsize : byteLength (pre ++ ['\r', '\n']) = byteLength pre + 1 + 1 := by
    rw [byteLength_append]
    rfl
  rw [hsize, ofPrefix_succ_of_completesLine hlineFeed, ofPrefix_succ_of_not_completesLine hwaits]
  rfl

/-- Walking over a piece of the source leads to the location of its end, unless
    it parts a line end there. -/
theorem after_ofPrefix {cs : List Char} (h : source.toList = pre ++ (cs ++ post))
    (hwhole : cs.getLast? = some '\r' → post.head? ≠ some '\n') :
    (ofPrefix source (byteLength pre)).after cs
      = ofPrefix source (byteLength (pre ++ cs)) := by
  generalize hplace : ofPrefix source (byteLength pre) = place
  -- The rest of the piece ends as the piece does.
  have hlast {first : Char} {rest : List Char} (hrest : rest.getLast? = some '\r') :
      (first :: rest).getLast? = some '\r' := by
    rw [List.getLast?_cons, hrest]
    rfl
  fun_induction after place cs generalizing pre with
  | case1 place => rw [List.append_nil, hplace]
  | case2 place cs ih =>
    have hnext : ofPrefix source (byteLength (pre ++ ['\r', '\n'])) = place.nextLine 2 := by
      rw [← hplace]
      exact ofPrefix_pair h
    rw [ih (by rw [h, List.append_assoc]; rfl) (hwhole <| hlast <| hlast ·) hnext,
      List.append_assoc]
    rfl
  | case3 place c cs hpair hends ih =>
    have halone : c = '\n' ∨ c = '\r' ∧ (cs ++ post).head? ≠ some '\n' := by
      refine hends.imp_right fun hreturn => ⟨hreturn, ?_⟩
      subst hreturn
      cases cs with
      | nil => exact hwhole rfl
      | cons d cs =>
        intro hd
        obtain rfl := Option.some.inj hd
        exact hpair cs rfl rfl
    have hnext : ofPrefix source (byteLength (pre ++ [c])) = place.nextLine 1 := by
      rw [← hplace]
      exact ofPrefix_lineEnd h halone
    rw [ih (by rw [h, List.append_assoc]; rfl) (hwhole <| hlast ·) hnext, List.append_assoc]
    rfl
  | case4 place c cs hpair hends ih =>
    obtain ⟨hlineFeed, hreturn⟩ := not_or.mp hends
    have hnext : ofPrefix source (byteLength (pre ++ [c])) = place.nextColumn c := by
      rw [← hplace]
      exact ofPrefix_plain h hlineFeed hreturn
    rw [ih (by rw [h, List.append_assoc]; rfl) (hwhole <| hlast ·) hnext, List.append_assoc]
    rfl

/-- A location is the one of its offset. -/
def IsPlaceIn (source : String) (place : Location) : Prop :=
  place = ofPrefix source place.offset

theorem isPlaceIn_ofPrefix (source : String) (n : Nat) : (ofPrefix source n).IsPlaceIn source :=
  rfl

/-- Among places in one source the order is that of their offsets. -/
theorem IsPlaceIn.le_iff {a b : Location} (ha : a.IsPlaceIn source) (hb : b.IsPlaceIn source) :
    a ≤ b ↔ a.offset ≤ b.offset := by
  conv_lhs => rw [ha, hb]
  exact ofPrefix_le_iff

end Location

/-! ### Locations of lexemes -/

namespace Lexer

open Location (IsPlaceIn ofPrefix)

variable {nested : Bool} {source : String}

/-- Where lexemes begin and end. -/
def boundaries (lexemes : List Lexeme) : List Location :=
  lexemes.flatMap fun l => [l.start, l.stop]

theorem start_mem_boundaries {l : Lexeme} {lexemes : List Lexeme} (h : l ∈ lexemes) :
    l.start ∈ boundaries lexemes :=
  List.mem_flatMap.mpr ⟨l, h, List.mem_cons_self⟩

theorem stop_mem_boundaries {l : Lexeme} {lexemes : List Lexeme} (h : l ∈ lexemes) :
    l.stop ∈ boundaries lexemes :=
  List.mem_flatMap.mpr ⟨l, h, List.mem_cons_of_mem _ List.mem_cons_self⟩

theorem isPlaceIn_of_mem_boundaries_lexFrom {start place : Location} {pre cs : List Char}
    (hsource : source.toList = pre ++ cs) (hstart : start = ofPrefix source (byteLength pre))
    (hplace : place ∈ boundaries (lexFrom nested start cs)) : place.IsPlaceIn source := by
  -- The induction follows the lexer; `pre` is all that was cut off so far.
  fun_induction lexFrom nested start cs generalizing pre with
  | case1 => cases hplace
  | case2 start c cs kind n hcut chars stop =>
    rename_i ih
    have hcuts := cuts_of_cut hcut
    have hchars : chars ++ cs.drop n = c :: cs := by
      rw [List.cons_append, List.take_append_drop]
    have htext : source.toList = pre ++ (chars ++ cs.drop n) := hsource.trans (by rw [hchars])
    have hstop : stop = ofPrefix source (byteLength (pre ++ chars)) := by
      show start.after chars = _
      rw [hstart]
      exact Location.after_ofPrefix htext hcuts.whole
    rcases List.mem_append.mp hplace with hfirst | hrest
    · rcases List.mem_pair.mp hfirst with rfl | rfl
      · rw [hstart]
        exact Location.isPlaceIn_ofPrefix _ _
      · rw [hstop]
        exact Location.isPlaceIn_ofPrefix _ _
    · exact ih (htext.trans (List.append_assoc ..).symm) hstop hrest

theorem isPlaceIn_of_mem_boundaries {place : Location}
    (h : place ∈ boundaries (lex nested source)) : place.IsPlaceIn source := by
  have hstart : Location.start = ofPrefix source (byteLength []) := rfl
  exact isPlaceIn_of_mem_boundaries_lexFrom rfl hstart h

end Lexer

/-- The text before a place decides its location. -/
structure LocatedByText (source : String) : Prop where
  /-- After any operations a reader has read some first bytes of the source, and
      stands where these lead. -/
  reader : ∀ ops : List ByteReader.Operation, ∃ n,
    (ByteReader.run ops (ByteReader.ofString source)).HasRead source n
  /-- Every lexeme begins and ends where the bytes before its offsets lead. -/
  lexeme : ∀ nested, ∀ l ∈ Lexer.lex nested source,
    l.start = Location.ofPrefix source l.start.offset ∧
      l.stop = Location.ofPrefix source l.stop.offset
  /-- The ends of lexemes have the order of their offsets. -/
  order : ∀ nested, ∀ a ∈ Lexer.boundaries (Lexer.lex nested source),
    ∀ b ∈ Lexer.boundaries (Lexer.lex nested source), a ≤ b ↔ a.offset ≤ b.offset

/-- **Locations are a function of the text before them**, for the reader of bytes
    after any operations and for the lexemes. -/
theorem locatedByText (source : String) : LocatedByText source := by
  constructor
  case reader =>
    intro ops
    exact (ByteReader.hasRead_ofString source).run ops
  case lexeme =>
    intro nested l hl
    exact ⟨Lexer.isPlaceIn_of_mem_boundaries (Lexer.start_mem_boundaries hl),
      Lexer.isPlaceIn_of_mem_boundaries (Lexer.stop_mem_boundaries hl)⟩
  case order =>
    intro nested a ha b hb
    exact (Lexer.isPlaceIn_of_mem_boundaries ha).le_iff (Lexer.isPlaceIn_of_mem_boundaries hb)

-- A line feed that belongs to a carriage return completes the line end, not the
-- carriage return before it.
example : Location.ofPrefix "ä\r\nb" 3 = ⟨1, 2, 3⟩ := by decide

example : Location.ofPrefix "ä\r\nb" 4 = ⟨2, 1, 4⟩ := by decide

end PascalOutline
