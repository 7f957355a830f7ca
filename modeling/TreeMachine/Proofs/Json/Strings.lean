import TreeMachine.Json.Reader

/-!
# Strings are read back

What a string is written as between quotes denotes the string (`unescape?_escape`), and the reader
takes it for one token (`Reader.run_string`).

Both statements go through the string character by character, with three cases for how a character
is written: by a letter after a backslash, by four digits, or as itself (`escapeChar_cases`). These
are all that is needed of the definition of escapes, which has more cases. In the first statement
the rest of the string is an induction hypothesis; in the second one the induction is on what is
left of the string, and the part that has been read is arbitrary.

To be able to speak about what is left, the tree of a text is considered that has been read up to a
point (`Reader.run`). The reader is a fold, so a character is taken off by one rewriting step
(`Reader.run_cons`). This is used for all other tokens as well.

Strings that are written in other ways are not considered. Neither are strings with halves of
surrogate pairs, which no string is written as.
-/

namespace TreeMachine.Json

/-! ### Escapes -/

/-- A character that is written as itself. -/
structure IsPlain (c : Char) : Prop where
  ne_quote : c ≠ '"'
  ne_backslash : c ≠ '\\'
  not_control : ¬c.toNat < 0x20

/-- The ways to write a character: an escape of one letter, an escape of four digits, or as
itself. -/
theorem escapeChar_cases (c : Char) :
    (∃ e, e ≠ 'u' ∧ escaped? e = some c ∧ escapeChar c = ['\\', e]) ∨
    (c.toNat < 0x20 ∧
      escapeChar c = ['\\', 'u', '0', '0', hexChar (c.toNat / 16), hexChar (c.toNat % 16)]) ∨
    (IsPlain c ∧ escapeChar c = [c]) := by
  unfold escapeChar
  -- The seven characters that have a letter come first, in the order of the definition.
  split
  · rename_i h
    subst h
    exact .inl ⟨'"', by decide, rfl, rfl⟩
  · split
    · rename_i h
      subst h
      exact .inl ⟨'\\', by decide, rfl, rfl⟩
    · split
      · rename_i h
        exact .inl ⟨'b', by decide, h ▸ rfl, rfl⟩
      · split
        · rename_i h
          exact .inl ⟨'f', by decide, h ▸ rfl, rfl⟩
        · split
          · rename_i h
            exact .inl ⟨'n', by decide, h ▸ rfl, rfl⟩
          · split
            · rename_i h
              exact .inl ⟨'r', by decide, h ▸ rfl, rfl⟩
            · split
              · rename_i h
                exact .inl ⟨'t', by decide, h ▸ rfl, rfl⟩
              · rename_i hquote hbackslash _ _ _ _ _
                split
                · rename_i h
                  exact .inr (.inl ⟨h, rfl⟩)
                · rename_i h
                  exact .inr (.inr ⟨⟨hquote, hbackslash, h⟩, rfl⟩)

theorem hexDigit?_hexChar : ∀ n < 16, hexDigit? (hexChar n) = some n := by
  decide

/-- The digits of an escape denote the character. -/
theorem hexValue_hexChars {n : Nat} (hn : n < 0x20) :
    hexValue ['0', '0', hexChar (n / 16), hexChar (n % 16)] = n := by
  have hzero : hexDigit? '0' = some 0 := rfl
  have hhigh := hexDigit?_hexChar (n / 16) (by omega)
  have hlow := hexDigit?_hexChar (n % 16) (by omega)
  simp only [hexValue, List.foldl_cons, List.foldl_nil, hzero, hhigh, hlow, Option.getD_some]
  omega

/-- An escape of four digits that is no surrogate. -/
theorem unescape?_unit {a b c d : Char} (hhigh : isHighSurrogate (hexValue [a, b, c, d]) = false)
    (hlow : isLowSurrogate (hexValue [a, b, c, d]) = false) (cs : List Char) :
    unescape? ('\\' :: 'u' :: a :: b :: c :: d :: cs) =
      (unescape? cs).map (Char.ofNat (hexValue [a, b, c, d]) :: ·) := by
  rw [unescape?.eq_def]
  simp only [hhigh, hlow]
  rfl

/-- **A string is what it is written as** between quotes, character by character. -/
theorem unescape?_escape (cs : List Char) : unescape? (escape cs) = some cs := by
  induction cs with
  | nil => rfl
  | cons c cs ih =>
    have hescape : escape (c :: cs) = escapeChar c ++ escape cs := rfl
    rw [hescape]
    rcases escapeChar_cases c with ⟨e, hne, hescaped, hc⟩ | ⟨hcontrol, hc⟩ | ⟨hplain, hc⟩
    · rw [hc]
      have hunescape : unescape? ('\\' :: e :: escape cs) =
          (escaped? e).bind fun d => (unescape? (escape cs)).map (d :: ·) := by
        rw [unescape?]
        rintro a b d f rest ⟨⟩
        exact absurd rfl hne
      exact hunescape.trans (by rw [hescaped, ih]; rfl)
    · rw [hc]
      -- A control character is no half of a pair of surrogates.
      have hvalue := hexValue_hexChars hcontrol
      have hhigh : isHighSurrogate c.toNat = false := by
        simp only [isHighSurrogate, Bool.and_eq_false_iff, decide_eq_false_iff_not]
        omega
      have hlow : isLowSurrogate c.toNat = false := by
        simp only [isLowSurrogate, Bool.and_eq_false_iff, decide_eq_false_iff_not]
        omega
      rw [← hvalue] at hhigh hlow
      refine (unescape?_unit hhigh hlow _).trans ?_
      rw [hvalue, Char.ofNat_toNat]
      exact congrArg (Option.map (c :: ·)) ih
    · rw [hc]
      have hunescape : unescape? (c :: escape cs) = (unescape? (escape cs)).map (c :: ·) := by
        rw [unescape?]
        · rintro a b d f rest rfl
          exact absurd rfl hplain.ne_backslash
        · rintro a rest rfl
          exact absurd rfl hplain.ne_backslash
      exact hunescape.trans (by rw [ih]; rfl)

/-! ### Strings in a text -/

namespace Reader

/-- The tree of a text that has been read up to a point. -/
def run (σ : Reader × Partial) (cs : List Char) : Option Tree :=
  (cs.foldlM next σ).bind finish

theorem run_cons (σ : Reader × Partial) (c : Char) (cs : List Char) :
    run σ (c :: cs) = (next σ c).bind fun σ' => run σ' cs := by
  rw [run, List.foldlM_cons, Option.bind_eq_bind, Option.bind_assoc]
  rfl

theorem run_of_next {σ σ' : Reader × Partial} {c : Char} (h : next σ c = some σ')
    (cs : List Char) : run σ (c :: cs) = run σ' cs := by
  rw [run_cons, h]
  rfl

/-- One written character inside a string. -/
theorem run_escapeChar (r : Reader) (rev : List Char) (c : Char) (cs : List Char) :
    run (r, .string rev) (escapeChar c ++ cs) =
      run (r, .string ((escapeChar c).reverse ++ rev)) cs := by
  have hbackslash : next (r, .string rev) '\\' = some (r, .escape ('\\' :: rev)) := rfl
  rcases escapeChar_cases c with ⟨e, hne, hescaped, hc⟩ | ⟨hcontrol, hc⟩ | ⟨hplain, hc⟩
  · rw [hc]
    have hletter : next (r, .escape ('\\' :: rev)) e = some (r, .string (e :: '\\' :: rev)) := by
      rw [next, if_neg hne, hescaped]
      rfl
    exact (run_of_next hbackslash _).trans (run_of_next hletter _)
  · rw [hc]
    -- The reader counts down the digits that are missing, and is back in the string after the last.
    have hdigit : ∀ (seen : List Char) (missing n : Nat), n < 16 →
        next (r, .hex seen missing) (hexChar n) = some (r, if missing ≤ 1 then
          .string (hexChar n :: seen) else .hex (hexChar n :: seen) (missing - 1)) := by
      intro seen missing n hn
      rw [next, hexDigit?_hexChar n hn]
      rfl
    have hu : next (r, .escape ('\\' :: rev)) 'u' = some (r, .hex ('u' :: '\\' :: rev) 4) := rfl
    refine (run_of_next hbackslash _).trans ((run_of_next hu _).trans ?_)
    refine (run_of_next (hdigit _ 4 0 (by omega)) _).trans ?_
    refine (run_of_next (hdigit _ 3 0 (by omega)) _).trans ?_
    refine (run_of_next (hdigit _ 2 (c.toNat / 16) (by omega)) _).trans ?_
    exact run_of_next (hdigit _ 1 (c.toNat % 16) (by omega)) _
  · rw [hc]
    have hself : next (r, .string rev) c = some (r, .string (c :: rev)) := by
      rw [next, if_neg hplain.ne_quote, if_neg hplain.ne_backslash, if_neg hplain.not_control]
    exact run_of_next hself cs

/-- **A string is one token**, by induction on the characters that are left of it. -/
theorem run_string (r : Reader) (rev s cs : List Char) :
    run (r, .string rev) (escape s ++ '"' :: cs) =
      (r.take (.string (rev.reverse ++ escape s))).bind fun r' => run (r', .nothing) cs := by
  induction s generalizing rev with
  | nil =>
    have hescape : escape [] = [] := rfl
    rw [hescape, List.nil_append, List.append_nil, run_cons, next, if_pos rfl]
    cases r.take (.string rev.reverse) <;> rfl
  | cons c s ih =>
    have hescape : escape (c :: s) = escapeChar c ++ escape s := rfl
    rw [hescape, List.append_assoc, run_escapeChar, ih, List.reverse_append, List.reverse_reverse,
      List.append_assoc]

end Reader

end TreeMachine.Json
