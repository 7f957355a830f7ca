import Mathlib.Data.List.TakeDrop
import Mathlib.Data.List.TakeWhile
import Mathlib.Data.Option.Basic
import TreeMachine.Json.Value
import TreeMachine.Proofs.Text.Decimal

/-!
# Numbers are words

What a number is written as is a word for the reader (`Literal.IsNumeral.isWord`). The word of an
integer is read back as the literal of the integer (`Tree.ofWord?_ofInt`), whose value is the
integer as long as it has 64 bits (`Literal.number?_ofInt`).

For doubles only the first of these is shown. The digits that a double is written with come from the
shortest numeral that is rounded to it, and that they are read back is a matter of floating point
arithmetic, which is taken as it is. So where a definition holds doubles, it is a condition that
they are kept by writing and reading them, and this can be evaluated for each of them.

A word is a run of characters that may stand in one, and not empty (`IsWord`). That is all the
reader needs to take it up, up to the first character that is not part of it. Of a literal it is
enough to know that its parts are digits, which follows from the digits of natural numbers; the four
places where the point of a double can be are four cases with the same argument.
-/

namespace TreeMachine.Json

/-- A word in a text: characters of words, and at least one. -/
structure IsWord (w : List Char) : Prop where
  ne_nil : w ≠ []
  chars : ∀ c ∈ w, isWordChar c = true

theorem IsWord.of_all {w : List Char} (hne : w ≠ []) (hall : w.all isWordChar = true) : IsWord w :=
  ⟨hne, List.all_eq_true.1 hall⟩

theorem isWordChar_of_isDigit {c : Char} (h : Text.isDigit c = true) : isWordChar c = true := by
  simp [isWordChar, h]

namespace Literal

/-- The parts of a literal are digits, and there are some before the point. -/
structure IsNumeral (l : Literal) : Prop where
  ne_nil : l.whole ≠ []
  whole : ∀ c ∈ l.whole, Text.isDigit c = true
  fraction : ∀ c ∈ l.fraction, Text.isDigit c = true
  exponent : ∀ b ds, l.exponent = some (b, ds) → ∀ c ∈ ds, Text.isDigit c = true

/-- **The text of a numeral** is a word. -/
theorem IsNumeral.isWord {l : Literal} (h : l.IsNumeral) : IsWord l.text := by
  constructor
  · intro hnil
    unfold text at hnil
    simp only [List.append_eq_nil_iff] at hnil
    exact h.ne_nil hnil.1.1.2
  · intro c hc
    unfold text at hc
    simp only [List.mem_append] at hc
    rcases hc with ((hc | hc) | hc) | hc
    · split at hc
      · rw [List.mem_singleton.1 hc]
        rfl
      · cases hc
    · exact isWordChar_of_isDigit (h.whole c hc)
    · split at hc
      · cases hc
      · rcases List.mem_cons.1 hc with rfl | hc
        · rfl
        · exact isWordChar_of_isDigit (h.fraction c hc)
    · split at hc
      · cases hc
      · rename_i b ds hexponent
        rcases List.mem_cons.1 hc with rfl | hc
        · rfl
        · split at hc
          · rcases List.mem_cons.1 hc with rfl | hc
            · rfl
            · exact isWordChar_of_isDigit (h.exponent b ds hexponent c hc)
          · exact isWordChar_of_isDigit (h.exponent b ds hexponent c hc)

theorem isNumeral_ofInt (n : Int) : (ofInt n).IsNumeral :=
  ⟨Text.digits_ne_nil _, fun _ => Text.isDigit_of_mem_digits, nofun, nofun⟩

theorem isDigit_of_mem_zeros {n : Nat} {c : Char} (h : c ∈ List.replicate n '0') :
    Text.isDigit c = true := by
  rw [List.eq_of_mem_replicate h]
  rfl

theorem isNumeral_ofDecimal (negative : Bool) (d : Number.Decimal) :
    (ofDecimal negative d).IsNumeral := by
  have hdigits : ∀ c ∈ Text.digits d.significand, Text.isDigit c = true :=
    fun c => Text.isDigit_of_mem_digits
  have hlength := List.length_pos_iff.2 (Text.digits_ne_nil d.significand)
  unfold ofDecimal
  dsimp only
  -- The point is behind the digits, among them or in front of them; otherwise there is an exponent.
  split
  · refine ⟨?_, ?_, ?_, nofun⟩
    · exact List.append_ne_nil_of_left_ne_nil (Text.digits_ne_nil _) _
    · intro c hc
      rcases List.mem_append.1 hc with hc | hc
      · exact hdigits c hc
      · exact isDigit_of_mem_zeros hc
    · intro c hc
      rw [List.mem_singleton.1 hc]
      rfl
  · split
    · rename_i hpoint
      refine ⟨?_, ?_, ?_, nofun⟩
      · intro hnil
        have hzero := congrArg List.length hnil
        rw [List.length_take, List.length_nil] at hzero
        omega
      · exact fun c hc => hdigits c (List.mem_of_mem_take hc)
      · exact fun c hc => hdigits c (List.mem_of_mem_drop hc)
    · split
      · refine ⟨List.cons_ne_nil _ _, ?_, ?_, nofun⟩
        · intro c hc
          rw [List.mem_singleton.1 hc]
          rfl
        · intro c hc
          rcases List.mem_append.1 hc with hc | hc
          · exact isDigit_of_mem_zeros hc
          · exact hdigits c hc
      · refine ⟨?_, ?_, ?_, ?_⟩
        · intro hnil
          have hzero := congrArg List.length hnil
          rw [List.length_take, List.length_nil] at hzero
          omega
        · exact fun c hc => hdigits c (List.mem_of_mem_take hc)
        · exact fun c hc => hdigits c (List.mem_of_mem_drop hc)
        · rintro b ds ⟨⟩ c hc
          exact Text.isDigit_of_mem_digits hc

/-- A double is written as a numeral, if it is written as a literal at all. -/
theorem isNumeral_ofFloat? {x : Float} {l : Literal} (h : ofFloat? x = some l) : l.IsNumeral := by
  obtain ⟨b, -, hb⟩ := Option.map_eq_some_iff.1 h
  split at hb
  · cases hb
    refine ⟨List.cons_ne_nil _ _, ?_, ?_, nofun⟩
    all_goals
      intro c hc
      rw [List.mem_singleton.1 hc]
      rfl
  · cases hb
    exact isNumeral_ofDecimal _ _

/-! ### Integers -/

theorem text_ofInt (n : Int) :
    (ofInt n).text = (if n < 0 then ['-'] else []) ++ Text.digits n.natAbs := by
  simp [text, ofInt]

/-- The digits of a number, after a sign or not, are read as the whole part of a literal. -/
theorem read?_digits (negative : Bool) (n : Nat) :
    read? ((if negative then ['-'] else []) ++ Text.digits n) =
      some ⟨negative, Text.digits n, [], none⟩ := by
  have hdigits : ∀ c ∈ Text.digits n, Text.isDigit c = true := fun c => Text.isDigit_of_mem_digits
  have hspan : (Text.digits n).span Text.isDigit = (Text.digits n, []) := by
    rw [List.span_eq_takeWhile_dropWhile, List.takeWhile_eq_self_iff.2 hdigits,
      List.dropWhile_eq_nil_iff.2 hdigits]
  have hguard : (!(Text.digits n).isEmpty &&
      ((Text.digits n).head? != some '0' || (Text.digits n).length == 1)) = true := by
    rcases Nat.eq_zero_or_pos n with rfl | hn
    · rfl
    · simp [Text.digits_ne_nil, Text.head?_digits hn]
  unfold read?
  split
  rename_i heq
  cases negative with
  | true =>
    split at heq
    · rename_i cs hcons
      have hcons' : '-' :: Text.digits n = '-' :: cs := hcons
      cases heq
      obtain ⟨-, rfl⟩ := List.cons.inj hcons'
      rw [hspan]
      dsimp only
      rw [hguard]
      rfl
    · rename_i hnone
      exact absurd rfl (hnone _)
  | false =>
    split at heq
    · rename_i cs hcons
      have hcons' : Text.digits n = '-' :: cs := hcons
      have hminus := hdigits '-' (hcons' ▸ List.mem_cons_self)
      cases hminus
    · -- There is no minus sign to be taken off.
      cases heq
      have hspan' : ((if false = true then ['-'] else []) ++ Text.digits n).span Text.isDigit =
          (Text.digits n, []) := hspan
      rw [hspan']
      dsimp only
      rw [hguard]
      rfl

/-- **The text of an integer** is read back as its literal. -/
theorem read?_ofInt (n : Int) : read? (ofInt n).text = some (ofInt n) := by
  have hread := read?_digits (decide (n < 0)) n.natAbs
  simp only [decide_eq_true_eq] at hread
  rw [text_ofInt, hread, ofInt]

/-- **The value of the literal** of an integer, if it has 64 bits with a sign or without. -/
theorem number?_ofInt {n : Int} (hlow : Word.minSigned ≤ n) (hhigh : n ≤ Word.max64) :
    (ofInt n).number? = some (.int n) := by
  have hdigits := Text.ofDigits_digits n.natAbs
  rcases Int.lt_or_le n 0 with hneg | hpos
  · have habs : (n.natAbs : Int) = -n := by omega
    have hsize : 0 < n.natAbs := by omega
    simp only [number?, ofInt, hdigits, hneg, habs, hsize]
    simp [hlow]
  · have habs : (n.natAbs : Int) = n := by omega
    have hnot : ¬n < 0 := by omega
    have hsize : n.natAbs ≤ Word.max64 := by omega
    simp [number?, ofInt, hdigits, hnot, hsize, habs]

end Literal

/-- A literal is none of the names that are words. -/
theorem Tree.ofWord?_ofInt (n : Int) :
    ofWord? (Literal.ofInt n).text = some (.number (.ofInt n)) := by
  have hdigits : ∀ c ∈ Text.digits n.natAbs, Text.isDigit c = true :=
    fun c => Text.isDigit_of_mem_digits
  -- The text begins with a minus sign or a digit, a name with a letter.
  have hname : ∀ (c : Char) (cs : List Char), c ≠ '-' → Text.isDigit c = false →
      (Literal.ofInt n).text ≠ c :: cs := by
    intro c cs hminus hdigit htext
    rw [Literal.text_ofInt] at htext
    split at htext
    · exact hminus (List.cons.inj htext).1.symm
    · have hc : c ∈ Text.digits n.natAbs := by
        rw [List.nil_append] at htext
        rw [htext]
        exact List.mem_cons_self
      exact absurd ((hdigits c hc).symm.trans hdigit) nofun
  have hnull : (Literal.ofInt n).text ≠ "null".toList :=
    hname 'n' ['u', 'l', 'l'] (by decide) rfl
  have htrue : (Literal.ofInt n).text ≠ "true".toList :=
    hname 't' ['r', 'u', 'e'] (by decide) rfl
  have hfalse : (Literal.ofInt n).text ≠ "false".toList :=
    hname 'f' ['a', 'l', 's', 'e'] (by decide) rfl
  rw [ofWord?, if_neg hnull, if_neg htrue, if_neg hfalse, Literal.read?_ofInt]
  rfl

end TreeMachine.Json
