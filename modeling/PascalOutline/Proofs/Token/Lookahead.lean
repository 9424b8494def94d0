import PascalOutline.Proofs.Correspondence.Token
import PascalOutline.Proofs.Cursor.CutShort

/-! # How far readers look

  A reader of a phrase sees more tokens than it passes: it has to find out that
  the phrase is over. No reader looks more than two tokens past the phrase
  (`LooksPast`). So what stands further on has no influence: two sources whose
  first tokens are the same are read the same, as long as two of these tokens
  are left.
-/

namespace PascalOutline

/-! ### Sources that begin alike -/

/-- The first `k` tokens of two lists are the same. -/
def Token.SameFirst (k : Nat) (ts us : List Token) : Prop :=
  us.take k = ts.take k

namespace Token.SameFirst

variable {k n : Nat} {t : Token} {ts us : List Token}

theorem take (h : SameFirst k ts us) (hn : n ≤ k) : us.take n = ts.take n := by
  have htake := congrArg (List.take n) h
  rwa [List.take_take, List.take_take, Nat.min_eq_left hn] at htake

theorem drop (h : SameFirst k ts us) (n : Nat) : SameFirst (k - n) (ts.drop n) (us.drop n) := by
  have hdrop := congrArg (List.drop n) h
  rwa [List.drop_take, List.drop_take] at hdrop

theorem getElem? (h : SameFirst k ts us) (hn : n < k) : us[n]? = ts[n]? := by
  have hget : (us.take k)[n]? = (ts.take k)[n]? := by rw [h]
  rwa [List.getElem?_take_of_lt hn, List.getElem?_take_of_lt hn] at hget

theorem head? (h : SameFirst k ts us) (hk : 0 < k) : us.head? = ts.head? := by
  rw [List.head?_eq_getElem?, List.head?_eq_getElem?, h.getElem? hk]

theorem eq_nil (h : SameFirst k [] us) (hk : 0 < k) : us = [] := by
  have hhead := h.head? hk
  exact List.head?_eq_none_iff.mp hhead

theorem exists_cons (h : SameFirst k (t :: ts) us) (hk : 0 < k) :
    ∃ vs, us = t :: vs ∧ SameFirst (k - 1) ts vs := by
  obtain ⟨vs, rfl⟩ := List.head?_eq_some_iff.mp (h.head? hk)
  exact ⟨vs, rfl, h.drop 1⟩

/-- Of less than two tokens nothing is left behind the first two. -/
theorem eq_of_short (h : SameFirst k ts us) (hk : 2 ≤ k)
    (hshort : ∀ t s rest, ts = t :: s :: rest → False) : us = ts := by
  cases ts with
  | nil => exact h.eq_nil (by omega)
  | cons t ts =>
    cases ts with
    | nil =>
      obtain ⟨vs, rfl, hrest⟩ := h.exists_cons (by omega)
      rw [hrest.eq_nil (by omega)]
    | cons s ts => exact absurd rfl (hshort t s ts)

end Token.SameFirst

open Token (SameFirst)

/-- A reader looks at most `w` tokens past those that it passes. -/
def LooksPast {α : Type} (w : Nat) (f : List Token → α) (length : α → Nat) : Prop :=
  ∀ ⦃k : Nat⦄ ⦃ts us : List Token⦄, SameFirst k ts us → length (f ts) + w ≤ k → f us = f ts

theorem LooksPast.mono {α : Type} {v w : Nat} {f : List Token → α} {length : α → Nat}
    (h : LooksPast v f length) (hvw : v ≤ w) : LooksPast w f length :=
  fun _ _ _ hsame hk => h hsame (Nat.le_trans (Nat.add_le_add_left hvw _) hk)

/-- A count that stops where the tokens do looks at one token past them. -/
theorem looksPast_of_take {f : List Token → Nat}
    (h : ∀ (ts : List Token) (k : Nat), f (ts.take k) = min k (f ts)) :
    LooksPast 1 f fun n => n := by
  intro k ts us hsame hk
  have hts := h ts k
  have hus := h us k
  rw [hsame] at hus
  dsimp only at hk
  omega

namespace Extent

variable {k : Nat} {ts us : List Token}

/-! ### Groups, types and headers -/

theorem looksPast_groupFrom (opening closing : String) (depth : Nat) :
    LooksPast 1 (groupFrom opening closing depth) fun n => n :=
  looksPast_of_take (groupFrom_take opening closing depth)

theorem looksPast_typeExpr (stops : List String) : LooksPast 1 (typeExpr stops) fun n => n :=
  looksPast_of_take (typeExprFrom_take stops ⟨0, 0⟩ false)

theorem looksPast_headerRest : LooksPast 1 headerRest fun n => n :=
  looksPast_of_take headerRest_take

theorem looksPast_genericsFrom (depth : Nat) :
    LooksPast 1 (genericsFrom depth) Generics.length := by
  intro k ts us hsame hk
  induction ts generalizing depth k us with
  | nil => rw [hsame.eq_nil (by omega)]
  | cons t ts ih =>
    obtain ⟨vs, rfl, hrest⟩ := hsame.exists_cons (by omega)
    have hlater (depth : Nat) (h : (genericsFrom depth ts).succ.length + 1 ≤ k) :
        (genericsFrom depth vs).succ = (genericsFrom depth ts).succ := by
      have hlength : (genericsFrom depth ts).length + 1 + 1 ≤ k := h
      rw [ih depth hrest (by omega)]
    unfold genericsFrom at hk ⊢
    split_ifs at hk ⊢
    · exact hlater _ hk
    · rfl
    · exact hlater _ hk
    · rfl
    · rfl
    · exact hlater _ hk

/-! ### Directives and accessors -/

theorem startsDirective_of_sameFirst (h : SameFirst k ts us) (hk : 2 ≤ k) :
    startsDirective us = startsDirective ts := by
  cases ts with
  | nil => rw [h.eq_nil (by omega)]
  | cons t ts =>
    obtain ⟨vs, rfl, hrest⟩ := h.exists_cons (by omega)
    rw [startsDirective, startsDirective, hrest.head? (by omega)]

theorem looksPast_directiveArgs : LooksPast 2 directiveArgs fun n => n := by
  intro k ts us hsame hk
  induction ts generalizing k us with
  | nil => rw [hsame.eq_nil (by omega)]
  | cons t ts ih =>
    have hstarts := startsDirective_of_sameFirst hsame (by omega)
    obtain ⟨vs, rfl, hrest⟩ := hsame.exists_cons (by omega)
    unfold directiveArgs at hk ⊢
    rw [hstarts]
    split_ifs at hk ⊢
    · rfl
    · dsimp only at hk
      rw [ih hrest (by dsimp only; omega)]

theorem looksPast_directives : LooksPast 2 directives Directives.length := by
  intro k ts us hsame hk
  induction ts using directives.induct generalizing k us with
  | case1 =>
    rw [hsame.eq_nil (by omega)]
  | case2 t ts hstarts n =>
    rename_i passed ih
    have hread : directives (t :: ts) = ⟨Token.render (t :: ts.take n) ::
        (directives (ts.drop passed)).texts,
        1 + passed + (directives (ts.drop passed)).length⟩ := by
      rw [directives, if_pos hstarts]
      rfl
    have hlength : 1 + passed + (directives (ts.drop passed)).length + 2 ≤ k := by
      rw [hread] at hk
      exact hk
    have hle : n ≤ passed := by
      simp only [passed]
      split <;> omega
    have hstarts' := startsDirective_of_sameFirst hsame (by omega)
    obtain ⟨vs, rfl, hrest⟩ := hsame.exists_cons (by omega)
    have hn : directiveArgs vs = n := looksPast_directiveArgs hrest (by dsimp only; omega)
    have hpassed :
        (if (vs.drop n).head?.any (Token.isSymbol · ";") then n + 1 else n) = passed := by
      rw [(hrest.drop n).head? (by omega)]
      rfl
    rw [hread, ← ih (hrest.drop passed) (by omega), directives, if_pos (hstarts'.trans hstarts)]
    dsimp only
    rw [hn, hpassed, hrest.take (show n ≤ k - 1 by omega)]
  | case3 t ts hstarts =>
    have hread : directives (t :: ts) = ⟨[], 0⟩ := by rw [directives, if_neg hstarts]
    have hstarts' := startsDirective_of_sameFirst hsame (by omega)
    obtain ⟨vs, rfl, hrest⟩ := hsame.exists_cons (by omega)
    rw [hread, directives, if_neg (hstarts' ▸ hstarts)]

theorem looksPast_accessors : LooksPast 1 accessors Directives.length := by
  intro k ts us hsame hk
  fun_induction accessors ts generalizing k us with
  | case1 => rw [hsame.eq_nil (by omega), accessors]
  | case2 t ts hword n =>
    rename_i others ih
    have hlength : 1 + n + others.length + 1 ≤ k := hk
    obtain ⟨vs, rfl, hrest⟩ := hsame.exists_cons (by omega)
    have hn : typeExpr accessorWords vs = n :=
      looksPast_typeExpr accessorWords hrest (by show n + 1 ≤ k - 1; omega)
    have hothers : accessors (vs.drop n) = others :=
      ih (hrest.drop n) (by show others.length + 1 ≤ k - 1 - n; omega)
    rw [accessors, if_pos hword]
    dsimp only
    rw [hn, hrest.take (show n ≤ k - 1 by omega), hothers]
  | case3 t ts hword =>
    obtain ⟨vs, rfl, _⟩ := hsame.exists_cons (by omega)
    rw [accessors, if_neg hword]

theorem looksPast_defaultMarks : LooksPast 2 defaultMarks fun n => 2 * n := by
  intro k ts us hsame hk
  fun_induction defaultMarks ts generalizing k us with
  | case1 t s ts hmark ih =>
    obtain ⟨vs, rfl, hrest⟩ := hsame.exists_cons (by omega)
    obtain ⟨ws, rfl, hothers⟩ := hrest.exists_cons (by omega)
    dsimp only at hk
    rw [defaultMarks, if_pos hmark, ih hothers (by dsimp only; omega)]
  | case2 t s ts hmark =>
    obtain ⟨vs, rfl, hrest⟩ := hsame.exists_cons (by omega)
    obtain ⟨ws, rfl, _⟩ := hrest.exists_cons (by omega)
    rw [defaultMarks, if_neg hmark]
  | case3 ts hshort =>
    rw [hsame.eq_of_short (by dsimp only at hk; omega) hshort, defaultMarks]
    exact hshort

/-! ### Names -/

/-- The parts of a dotted name are the same when two tokens are left after
    each of them. -/
theorem segments_of_sameFirst {before : Nat} (h : SameFirst k ts us) (hk : 1 < k)
    (hstop : ∀ s ∈ segments before ts, s.stop + 2 ≤ before + k) :
    segments before us = segments before ts := by
  fun_induction segments before ts generalizing k us with
  | case1 => rw [h.eq_nil (by omega), segments]
  | case2 before t ts hname n rest stop =>
    rename_i more ih
    have hlast : before + 1 + n + 2 ≤ before + k := hstop _ List.mem_cons_self
    obtain ⟨vs, rfl, hrest⟩ := h.exists_cons (by omega)
    have hn : (if vs.head?.any (Token.isSymbol · "<") then (generics vs).length else 0) = n := by
      have hle : (if ts.head?.any (Token.isSymbol · "<") then (generics ts).length else 0) = n :=
        rfl
      rw [hrest.head? (by omega)]
      split_ifs at hle ⊢
      · rw [← hle, generics, looksPast_genericsFrom 0 hrest]
        · rfl
        · show (generics ts).length + 1 ≤ k - 1
          omega
      · exact hle
    have hmore : ((vs.drop n).head?.any (Token.isSymbol · ".")
        && (vs.drop n)[1]?.any Token.isName) = more := by
      have hafter := hrest.drop n
      rw [hafter.head? (by omega), hafter.getElem? (by omega)]
    rw [segments, if_pos hname]
    dsimp only
    rw [hn, hmore]
    refine congrArg (List.cons _) ?_
    split_ifs with hvalue
    · -- One more part begins after the dot, so at least one token is left there.
      have hhead : (ts.drop (n + 1)).head?.any Token.isName = true := by
        have hnext := (Bool.and_eq_true_iff.mp hvalue).2
        rw [List.head?_drop, ← hnext, List.getElem?_drop]
      obtain ⟨s, hs⟩ := exists_mem_segments hhead (stop + 1)
      have hlt := lt_stop_of_mem_segments hs
      have hlater : ∀ s ∈ segments (stop + 1) (ts.drop (n + 1)), s.stop + 2 ≤ before + k :=
        fun s hs => hstop s (List.mem_cons_of_mem _ (by rw [if_pos hvalue]; exact hs))
      have hle := hlater s hs
      have hdrop := hrest.drop (n + 1)
      refine ih hdrop ?_ ?_
      · have : stop = before + 1 + n := rfl
        omega
      · intro s hs
        have := hlater s hs
        have : stop = before + 1 + n := rfl
        omega
    · rfl
  | case3 before t ts hname =>
    obtain ⟨vs, rfl, _⟩ := h.exists_cons (by omega)
    rw [segments, if_neg hname]

theorem looksPast_qualifiedName : LooksPast 2 qualifiedName QualifiedName.length := by
  intro k ts us hsame hk
  have hparts : segments 0 us = segments 0 ts ∧
      ∀ last, (segments 0 ts).getLast? = some last → last.stop ≤ k := by
    unfold qualifiedName at hk
    dsimp only at hk
    cases hlast : (segments 0 ts).getLast? with
    | none =>
      have hnil := List.getLast?_eq_none_iff.mp hlast
      refine ⟨segments_of_sameFirst hsame (by omega) ?_, by simp⟩
      rw [hnil]
      exact List.forall_mem_nil _
    | some last =>
      rw [hlast] at hk
      have hstop : last.stop + 2 ≤ k := hk
      refine ⟨segments_of_sameFirst hsame (by omega) ?_, ?_⟩
      · intro s hs
        have hle := stop_le_of_mem_segments hlast hs
        omega
      · intro part hpart
        rw [← Option.some.inj hpart]
        omega
  obtain ⟨hsegments, hstop⟩ := hparts
  unfold qualifiedName
  dsimp only
  rw [hsegments]
  cases hlast : (segments 0 ts).getLast? with
  | none => rfl
  | some last =>
    dsimp only
    congr 1
    refine Option.map_congr fun owner howner => ?_
    have hmem : owner ∈ segments 0 ts := List.dropLast_subset _ (List.mem_of_getLast? howner)
    have hle := stop_le_of_mem_segments hlast hmem
    rw [hsame.take (Nat.le_trans hle (hstop last hlast))]

theorem looksPast_operatorName : LooksPast 2 operatorName QualifiedName.length := by
  intro k ts us hsame hk
  cases ts with
  | nil => rw [hsame.eq_nil (by omega)]
  | cons t ts =>
    obtain ⟨vs, rfl, _⟩ := hsame.exists_cons (by omega)
    rfl

end Extent

namespace Clause

open Extent

variable {k : Nat} {ts us : List Token}

/-! ### Units -/

theorem looksPast_dottedRest : LooksPast 2 dottedRest fun n => n := by
  intro k ts us hsame hk
  fun_induction dottedRest ts generalizing k us with
  | case1 dot name ts hpair ih =>
    dsimp only at hk
    obtain ⟨vs, rfl, hrest⟩ := hsame.exists_cons (by omega)
    obtain ⟨ws, rfl, hothers⟩ := hrest.exists_cons (by omega)
    rw [dottedRest, if_pos hpair, ih hothers (by dsimp only; omega)]
  | case2 dot name ts hpair =>
    obtain ⟨vs, rfl, hrest⟩ := hsame.exists_cons (by omega)
    obtain ⟨ws, rfl, _⟩ := hrest.exists_cons (by omega)
    rw [dottedRest, if_neg hpair]
  | case3 ts hshort =>
    rw [hsame.eq_of_short (by dsimp only at hk; omega) hshort, dottedRest]
    exact hshort

theorem looksPast_units : LooksPast 2 units Names.length := by
  intro k ts us hsame hk
  induction ts using units.induct generalizing k us with
  | case1 => rw [hsame.eq_nil (by omega)]
  | case2 t ts hend =>
    obtain ⟨vs, rfl, _⟩ := hsame.exists_cons (by omega)
    rw [units, units, if_pos hend, if_pos hend]
  | case3 t ts hend hstop =>
    obtain ⟨vs, rfl, _⟩ := hsame.exists_cons (by omega)
    rw [units, units, if_neg hend, if_neg hend, if_pos hstop, if_pos hstop]
  | case4 t ts hend hstop hname n =>
    rename_i passed ih
    have hread : units (t :: ts) = ⟨Token.render (t :: ts.take n) ::
        (units (ts.drop passed)).texts, 1 + passed + (units (ts.drop passed)).length⟩ := by
      rw [units, if_neg hend, if_neg hstop, if_pos hname]
      rfl
    have hlength : 1 + passed + (units (ts.drop passed)).length + 2 ≤ k := by
      rw [hread] at hk
      exact hk
    have hle : n ≤ passed := by
      simp only [passed]
      split <;> omega
    obtain ⟨vs, rfl, hrest⟩ := hsame.exists_cons (by omega)
    have hn : dottedRest vs = n := looksPast_dottedRest hrest (by dsimp only; omega)
    have hpassed : (if (vs.drop n).head?.any (Token.isWord · "in") then n + 2 else n) = passed := by
      rw [(hrest.drop n).head? (by omega)]
      rfl
    rw [hread, ← ih (hrest.drop passed) (by omega), units, if_neg hend, if_neg hstop, if_pos hname]
    dsimp only
    rw [hn, hpassed, hrest.take (show n ≤ k - 1 by omega)]
  | case5 t ts hend hstop hname ih =>
    have hread : units (t :: ts) = ⟨(units ts).texts, 1 + (units ts).length⟩ := by
      rw [units, if_neg hend, if_neg hstop, if_neg hname]
    have hlength : 1 + (units ts).length + 2 ≤ k := by
      rw [hread] at hk
      exact hk
    obtain ⟨vs, rfl, hrest⟩ := hsame.exists_cons (by omega)
    rw [hread, ← ih hrest (by omega), units, if_neg hend, if_neg hstop, if_neg hname]

/-! ### Types -/

theorem looksPast_packing : LooksPast 1 packing fun n => n := by
  refine looksPast_of_take fun ts k => ?_
  unfold packing
  induction ts generalizing k with
  | nil => simp
  | cons t ts ih =>
    cases k with
    | zero => simp
    | succ k =>
      rw [List.take_succ_cons, List.takeWhile_cons, List.takeWhile_cons]
      split
      · rw [List.length_cons, List.length_cons, ih]
        omega
      · rfl

theorem looksPast_basesFrom (angle : Nat) (current : List Token) :
    LooksPast 1 (basesFrom angle current) Prod.snd := by
  intro k ts us hsame hk
  induction ts generalizing angle current k us with
  | nil => rw [hsame.eq_nil (by omega)]
  | cons t ts ih =>
    obtain ⟨vs, rfl, hrest⟩ := hsame.exists_cons (by omega)
    unfold basesFrom at hk ⊢
    split_ifs at hk ⊢
    · rfl
    · rfl
    · dsimp only at hk ⊢
      rw [ih 0 [] hrest (by omega)]
    · dsimp only at hk ⊢
      rw [ih _ _ hrest (by omega)]

theorem looksPast_bases : LooksPast 1 bases Names.length := by
  intro k ts us hsame hk
  cases ts with
  | nil => rw [hsame.eq_nil (by omega)]
  | cons t ts =>
    obtain ⟨vs, rfl, hrest⟩ := hsame.exists_cons (by omega)
    rw [bases] at hk ⊢
    rw [bases]
    split_ifs at hk ⊢
    · dsimp only at hk ⊢
      rw [looksPast_basesFrom 0 [] hrest (by omega)]
    · rfl

theorem looksPast_helped : LooksPast 2 helped Names.length := by
  intro k ts us hsame hk
  cases ts with
  | nil => rw [hsame.eq_nil (by omega)]
  | cons t ts =>
    obtain ⟨vs, rfl, hrest⟩ := hsame.exists_cons (by omega)
    rw [helped] at hk ⊢
    rw [helped]
    split_ifs at hk ⊢
    · dsimp only at hk ⊢
      rw [looksPast_qualifiedName hrest (by omega), hrest.take (by omega)]
    · rfl

theorem looksPast_modifiers : LooksPast 2 modifiers Modifiers.length := by
  intro k ts us hsame hk
  induction ts using modifiers.induct generalizing k us with
  | case1 => rw [hsame.eq_nil (by omega)]
  | case2 t ts hfield =>
    obtain ⟨vs, rfl, hrest⟩ := hsame.exists_cons (by omega)
    rw [modifiers, modifiers, hrest.head? (by omega), if_pos hfield, if_pos hfield]
  | case3 t ts hfield hword ih =>
    have hread : modifiers (t :: ts) = ⟨lowered t.text :: (modifiers ts).specifiers,
        (modifiers ts).bases, 1 + (modifiers ts).length⟩ := by
      rw [modifiers, if_neg hfield, if_pos hword]
    have hlength : 1 + (modifiers ts).length + 2 ≤ k := by
      rw [hread] at hk
      exact hk
    obtain ⟨vs, rfl, hrest⟩ := hsame.exists_cons (by omega)
    rw [hread, ← ih hrest (by omega), modifiers, hrest.head? (by omega), if_neg hfield,
      if_pos hword]
  | case4 t ts hfield hword hhelper ancestors subject =>
    rename_i n ih
    have hread : modifiers (t :: ts) = ⟨"helper" :: (modifiers (ts.drop n)).specifiers,
        subject.texts ++ ancestors.texts ++ (modifiers (ts.drop n)).bases,
        1 + n + (modifiers (ts.drop n)).length⟩ := by
      rw [modifiers, if_neg hfield, if_neg hword, if_pos hhelper]
    have hlength : 1 + n + (modifiers (ts.drop n)).length + 2 ≤ k := by
      rw [hread] at hk
      exact hk
    have hn : n = ancestors.length + subject.length := rfl
    obtain ⟨vs, rfl, hrest⟩ := hsame.exists_cons (by omega)
    have hancestors : bases vs = ancestors :=
      looksPast_bases hrest (by show ancestors.length + 1 ≤ k - 1; omega)
    have hsubject : helped (vs.drop ancestors.length) = subject :=
      looksPast_helped (hrest.drop _)
        (by show subject.length + 2 ≤ k - 1 - ancestors.length; omega)
    rw [hread, ← ih (hrest.drop n) (by omega), modifiers, hrest.head? (by omega), if_neg hfield,
      if_neg hword, if_pos hhelper]
    simp only [hancestors, hsubject]
    rfl
  | case5 t ts hfield hword hhelper =>
    obtain ⟨vs, rfl, hrest⟩ := hsame.exists_cons (by omega)
    rw [modifiers, modifiers, hrest.head? (by omega), if_neg hfield, if_neg hfield, if_neg hword,
      if_neg hword, if_neg hhelper, if_neg hhelper]

/-! ### Names and clauses without entries -/

theorem looksPast_declaredNames : LooksPast 2 declaredNames Prod.snd := by
  intro k ts us hsame hk
  induction ts using declaredNames.induct generalizing k us with
  | case1 => rw [hsame.eq_nil (by omega)]
  | case2 t hname =>
    obtain ⟨vs, rfl, hrest⟩ := hsame.exists_cons (by omega)
    rw [hrest.eq_nil (by omega)]
  | case3 t hname =>
    obtain ⟨vs, rfl, hrest⟩ := hsame.exists_cons (by omega)
    rw [hrest.eq_nil (by omega)]
  | case4 t s ts hname hcomma others n hnames ih =>
    have hread : declaredNames (t :: s :: ts)
        = (t :: (declaredNames ts).1, 2 + (declaredNames ts).2) := by
      rw [declaredNames, if_pos hname, if_pos hcomma]
    have hlength : 2 + (declaredNames ts).2 + 2 ≤ k := by
      rw [hread] at hk
      exact hk
    obtain ⟨vs, rfl, hrest⟩ := hsame.exists_cons (by omega)
    obtain ⟨ws, rfl, hothers⟩ := hrest.exists_cons (by omega)
    rw [hread, ← ih hothers (by omega), declaredNames, if_pos hname, if_pos hcomma]
  | case5 t s ts hname hcomma =>
    obtain ⟨vs, rfl, hrest⟩ := hsame.exists_cons (by omega)
    obtain ⟨ws, rfl, _⟩ := hrest.exists_cons (by omega)
    rw [declaredNames, declaredNames, if_pos hname, if_pos hname, if_neg hcomma, if_neg hcomma]
  | case6 t s ts hname =>
    obtain ⟨vs, rfl, hrest⟩ := hsame.exists_cons (by omega)
    obtain ⟨ws, rfl, _⟩ := hrest.exists_cons (by omega)
    rw [declaredNames, declaredNames, if_neg hname, if_neg hname]

theorem looksPast_statementRest : LooksPast 1 statementRest fun n => n := by
  intro k ts us hsame hk
  induction ts generalizing k us with
  | nil => rw [hsame.eq_nil (by omega)]
  | cons t ts ih =>
    obtain ⟨vs, rfl, hrest⟩ := hsame.exists_cons (by omega)
    unfold statementRest at hk ⊢
    split_ifs at hk ⊢
    · rfl
    · rfl
    · dsimp only at hk
      rw [ih hrest (by dsimp only; omega)]

end Clause

end PascalOutline
